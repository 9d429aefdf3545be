import Codec.Mempool.Pool

set_option autoImplicit false

namespace Codec.Mempool

open Codec.Lib

section Queues

variable (cells : List Nat) (pool : Nat)

def queued (free blocks : List Nat) : List Nat := (entryFreelist pool :: free) ++ entryBlocklist pool :: blocks

theorem queued_free (free blocks : List Nat) (node : Nat) :
    (queued pool (free ++ [node]) blocks).Perm (node :: queued pool free blocks) := by
  have split : queued pool (free ++ [node]) blocks = (entryFreelist pool :: free) ++ node :: (entryBlocklist pool :: blocks) := by
    simp [queued]
  exact split ▸ List.perm_middle

theorem queued_block (free blocks : List Nat) (node : Nat) :
    (queued pool free (blocks ++ [node])).Perm (node :: queued pool free blocks) := by
  have split : queued pool free (blocks ++ [node]) = queued pool free blocks ++ [node] := by simp [queued]
  exact split ▸ List.perm_append_singleton node _

-- The two queues of a pool, as they stand in memory.
structure Queues (mem : Memory) (free blocks : List Nat) : Prop where
  freelist : mem.links.Ring (entryFreelist pool) free
  blocklist : mem.links.Ring (entryBlocklist pool) blocks
  inside : queued pool free blocks ⊆ cells
  distinct : (queued pool free blocks).Nodup

variable (mem : Memory) (free blocks : List Nat) (queues : Queues cells pool mem free blocks)
include queues

theorem queues_apart (node : Nat) (there : node ∈ entryFreelist pool :: free) : node ∉ entryBlocklist pool :: blocks :=
  fun other => (List.nodup_append.mp queues.distinct).2.2 node there node other rfl

theorem free_inside (node : Nat) (there : node ∈ entryFreelist pool :: free) : node ∈ cells :=
  queues.inside (List.mem_append_left _ there)

theorem block_inside (node : Nat) (there : node ∈ entryBlocklist pool :: blocks) : node ∈ cells :=
  queues.inside (List.mem_append_right _ there)

theorem queues_put (addr : Nat) (text : List UInt8)
    (apart : ∀ node ∈ queued pool free blocks, addr + text.length ≤ node ∨ node + 16 ≤ addr) :
    Queues cells pool (mem.put addr text) free blocks where
  freelist := Memory.put_ring mem addr text _ free queues.freelist fun node there => apart node (List.mem_append_left _ there)
  blocklist := Memory.put_ring mem addr text _ _ queues.blocklist fun node there => apart node (List.mem_append_right _ there)
  inside := queues.inside
  distinct := queues.distinct

variable (places : Memory.Places {cell | cell ∈ cells}) (node : Nat)
include places

theorem queues_free (there : node ∈ cells) (fresh : node ∉ queued pool free blocks) :
    Queues cells pool (mem.insertTail (entryFreelist pool) node) (free ++ [node]) blocks := by
  have unfree : node ∉ entryFreelist pool :: free := fun here => fresh (List.mem_append_left _ here)
  have unblock : node ∉ entryBlocklist pool :: blocks := fun here => fresh (List.mem_append_right _ here)
  have moved := queued_free pool free blocks node
  exact {
    freelist := Memory.insert_tail_ring _ places mem _ node free (free_inside _ pool mem free _ queues) there
      queues.freelist (List.nodup_append.mp queues.distinct).1 unfree
    blocklist := Memory.insert_tail_other _ places mem _ node _ _ free (block_inside _ pool mem free _ queues) there
      (free_inside _ pool mem free _ queues) queues.blocklist queues.freelist unblock
      (queues_apart _ pool mem free _ queues)
    inside := fun _ member => List.cons_subset.mpr ⟨there, queues.inside⟩ (moved.subset member)
    distinct := moved.nodup_iff.mpr (List.nodup_cons.mpr ⟨fresh, queues.distinct⟩) }

theorem queues_block (there : node ∈ cells) (fresh : node ∉ queued pool free blocks) :
    Queues cells pool (mem.insertTail (entryBlocklist pool) node) free (blocks ++ [node]) := by
  have unfree : node ∉ entryFreelist pool :: free := fun here => fresh (List.mem_append_left _ here)
  have unblock : node ∉ entryBlocklist pool :: blocks := fun here => fresh (List.mem_append_right _ here)
  have moved := queued_block pool free blocks node
  exact {
    freelist := Memory.insert_tail_other _ places mem _ node _ free _ (free_inside _ pool mem free _ queues) there
      (block_inside _ pool mem free _ queues) queues.freelist queues.blocklist unfree
      fun other here => fun back => queues_apart _ pool mem free _ queues _ back here
    blocklist := Memory.insert_tail_ring _ places mem _ node _ (block_inside _ pool mem free _ queues) there
      queues.blocklist (List.nodup_append.mp queues.distinct).2.1 unblock
    inside := fun _ member => List.cons_subset.mpr ⟨there, queues.inside⟩ (moved.subset member)
    distinct := moved.nodup_iff.mpr (List.nodup_cons.mpr ⟨fresh, queues.distinct⟩) }

end Queues

section Take

variable (cells : List Nat) (places : Memory.Places {cell | cell ∈ cells}) (pool : Nat) (mem : Memory) (node : Nat)
  (rest blocks : List Nat) (queues : Queues cells pool mem (node :: rest) blocks)
include queues

theorem queues_head : mem.load (entryFreelist pool + 8) = node := Links.ring_next mem.links _ _ queues.freelist

include places

theorem queues_take : Queues cells pool (mem.remove node) rest blocks := by
  have fewer : (queued pool rest blocks).Sublist _ := ((List.sublist_cons_self node rest).cons_cons _).append_right _
  exact {
    freelist := Memory.remove_ring _ places mem _ node [] rest (free_inside _ pool mem _ _ queues) queues.freelist
      (List.nodup_append.mp queues.distinct).1
    blocklist := Memory.remove_other _ places mem _ node _ _ _ (block_inside _ pool mem _ _ queues)
      (free_inside _ pool mem _ _ queues) (List.mem_cons_of_mem _ List.mem_cons_self) queues.blocklist queues.freelist
      (queues_apart _ pool mem _ _ queues)
    inside := fun cell there => queues.inside (fewer.subset there)
    distinct := queues.distinct.sublist fewer }

end Take

section Expand

variable (cells : List Nat) (places : Memory.Places {cell | cell ∈ cells}) (pool nodeSize : Nat) (blocks : List Nat)
include places

-- On the nodes a piece of memory has room for; its end is below the word's.
theorem pool_expand_queues (ptrEnd : Nat) (high : ptrEnd + nodeSize < 2 ^ 64) (count fuel : Nat) (mem : Memory) (ptrStart : Nat)
    (free : List Nat) (enough : count < fuel) (room : ptrStart + count * nodeSize ≤ ptrEnd)
    (full : ptrEnd < ptrStart + (count + 1) * nodeSize) (queues : Queues cells pool mem free blocks)
    (there : nodesFrom nodeSize count ptrStart ⊆ cells)
    (fresh : (nodesFrom nodeSize count ptrStart ++ queued pool free blocks).Nodup) :
    ∃ mem', poolExpand pool nodeSize fuel mem ptrStart ptrEnd = some mem' ∧
      Queues cells pool mem' (free ++ nodesFrom nodeSize count ptrStart) blocks ∧
      ∀ place, Memory.Beside place (nodesFrom nodeSize count ptrStart ++ queued pool free blocks) → mem' place = mem place := by
  induction count generalizing fuel mem ptrStart free with
  | zero =>
    obtain ⟨turns, rfl⟩ := Nat.exists_eq_add_of_lt enough
    have small : word _ = ptrStart + nodeSize := Nat.mod_eq_of_lt (by omega)
    refine ⟨mem, ?_, by rwa [nodesFrom, List.append_nil], fun _ _ => rfl⟩
    rw [poolExpand, small, if_neg (by omega)]
  | succ count ih =>
    obtain ⟨turns, rfl⟩ : ∃ turns, fuel = turns + 1 := ⟨fuel - 1, by omega⟩
    rw [Nat.succ_mul] at room
    rw [Nat.succ_mul] at full
    have small : word _ = ptrStart + nodeSize := Nat.mod_eq_of_lt (by omega)
    have new := List.nodup_cons.mp fresh
    have more := queues_free _ pool mem free _ queues places _ (there List.mem_cons_self)
      fun here => new.1 (List.mem_append_right _ here)
    have moved := queued_free pool free blocks ptrStart
    have later : (nodesFrom _ _ _ ++ queued pool _ _).Nodup :=
      ((moved.append_left _).trans List.perm_middle).nodup_iff.mpr fresh
    obtain ⟨mem', expanded, rings, kept⟩ := ih turns _ _ _ (by omega) (by omega) (by omega)
      more (fun node inside => there (List.mem_cons_of_mem _ inside)) later
    refine ⟨mem', ?_, ?_, fun place beside => ?_⟩
    · rw [poolExpand, small, if_pos (by omega), expanded]
    · rwa [nodesFrom, List.append_cons]
    · have same := kept place fun node inside => beside node (((moved.append_left _).trans List.perm_middle).subset inside)
      rw [same]
      exact Memory.insert_tail_beside mem place _ places _ _ free queues.freelist (free_inside _ pool mem free _ queues)
        (fun node inside => beside node (List.mem_append_right _ (List.mem_append_left _ inside))) (beside _ List.mem_cons_self)

end Expand

-- What malloc promises of the memory it gives for a block.
def Given (s : MemPool) (blk : Nat) : Prop :=
  blk + word (blockHeader + s.blockSize) < 2 ^ 63 ∧
    (s.pool + poolSize ≤ blk ∨ blk + word (blockHeader + s.blockSize) ≤ s.pool) ∧
    ∀ block ∈ s.blocks, Away (word (blockHeader + s.blockSize)) block blk

-- What the callers keep to: they free and fill their own nodes.
def Allowed (s : Use) : PoolCall → Prop
  | .alloc _ (some blk) => Given s.pool blk
  | .alloc _ none => True
  | .free node => node ∈ s.live
  | .write node offset _ => node ∈ s.live ∧ offset < span s.pool.nodeSize

-- An allocation that gets memory for another block cuts it as it should, and
-- may have one.
def Meets (s : Use) : PoolCall → Prop
  | .alloc size (some _) => 0 < size → size ≤ s.pool.nodeSize → s.pool.mem.queueEmpty (entryFreelist s.pool.pool) = true →
      Cuts s.pool.blockSize s.pool.nodeSize ∧ (s.pool.autoExtend = true ∨ s.pool.blocks = [])
  | _ => True

def Within (s : MemPool) (node : Nat) : Prop :=
  ∃ block ∈ s.blocks, block + blockHeader ≤ node ∧ node + span s.nodeSize ≤ block + (blockHeader + s.blockSize)

structure PoolRight (s : Use) : Prop where
  chained : s.pool.mem.links.Ring (entryBlocklist s.pool.pool) s.pool.blocks
  inside : ∀ node ∈ s.live, Within s.pool node
  apart : s.live.Pairwise (Away (span s.pool.nodeSize))
  once : ∃ free, s.pool.mem.links.Ring (entryFreelist s.pool.pool) free ∧ (s.live ++ free).Nodup ∧
    (s.live ++ free).Perm (nodesIn s.pool.blockSize s.pool.nodeSize s.pool.blocks)
  used : s.pool.totalUsedNodes = s.live.length
  limit : s.pool.autoExtend = false → s.pool.blocks.length ≤ 1

def ReplyRight (s : Use) (size : Nat) : Reply × MemPool → Prop
  | (.node addr, after) => addr ≠ entryFreelist after.pool ∧ Within after addr ∧ ∀ node ∈ s.live, Away (span after.nodeSize) node addr
  | (.null, _) => True
  | (.aborted, _) => size = 0 ∨ s.pool.nodeSize < size
  | (.hung, _) => False

def AnswerRight (s : Use) : PoolCall → Prop
  | .alloc size answer => s.ended = false → ReplyRight s size (poolMalloc s.pool size answer)
  | _ => True

section Decide

instance (size one other : Nat) : Decidable (Away size one other) := inferInstanceAs (Decidable (_ ∨ _))

instance (blockSize nodeSize : Nat) : Decidable (Cuts blockSize nodeSize) :=
  decidable_of_iff (blockHeader + blockSize < 2 ^ 64 ∧ nodeSize ≤ blockSize ∧
    (nodeHeader ≤ nodeSize ∨ (nodeHeader ≤ blockSize ∧ blockSize < 2 * nodeSize)))
    ⟨fun cuts => ⟨cuts.1, cuts.2.1, cuts.2.2⟩, fun cuts => ⟨cuts.size, cuts.some, cuts.room⟩⟩

instance (s : MemPool) (blk : Nat) : Decidable (Given s blk) := inferInstanceAs (Decidable (_ ∧ _ ∧ _))

instance (s : Use) : ∀ call, Decidable (Allowed s call)
  | .alloc _ (some blk) => inferInstanceAs (Decidable (Given s.pool blk))
  | .alloc _ none => isTrue trivial
  | .free node => inferInstanceAs (Decidable (node ∈ s.live))
  | .write _ _ _ => inferInstanceAs (Decidable (_ ∧ _))

instance (s : Use) : ∀ call, Decidable (Meets s call)
  | .alloc _ (some _) => inferInstanceAs (Decidable (_ → _ → _ → _ ∧ _))
  | .alloc _ none => isTrue trivial
  | .free _ => isTrue trivial
  | .write _ _ _ => isTrue trivial

instance (s : MemPool) (node : Nat) : Decidable (Within s node) := inferInstanceAs (Decidable (∃ block ∈ s.blocks, _))

instance (s : Use) (size : Nat) : ∀ result, Decidable (ReplyRight s size result)
  | (.node _, _) => inferInstanceAs (Decidable (_ ∧ _ ∧ _))
  | (.null, _) => isTrue trivial
  | (.aborted, _) => inferInstanceAs (Decidable (_ ∨ _))
  | (.hung, _) => isFalse id

instance (s : Use) : ∀ call, Decidable (AnswerRight s call)
  | .alloc size answer => inferInstanceAs (Decidable (_ → ReplyRight s size (poolMalloc s.pool size answer)))
  | .free _ => isTrue trivial
  | .write _ _ _ => isTrue trivial

end Decide

-- The invariant, with the nodes of the free list.
structure Holds (s : MemPool) (live free : List Nat) : Prop where
  layout : Layout s.blockSize s.nodeSize s.pool s.blocks
  queues : Queues (cells s.blockSize s.nodeSize s.pool s.blocks) s.pool s.mem free s.blocks
  all : (live ++ free).Perm (nodesIn s.blockSize s.nodeSize s.blocks)
  used : s.totalUsedNodes = live.length
  limit : s.autoExtend = false → s.blocks.length ≤ 1

theorem init_holds (mem : Memory) (pool blockSize nodeSize : Nat) (autoExtend : Bool) (start : MemPool)
    (high : pool + poolSize < 2 ^ 63) (begun : memPoolInit mem pool blockSize nodeSize = some start) :
    Holds { start with autoExtend := autoExtend } [] [] := by
  by_cases small : nodeSize < maxPoolNodeSize
  · rw [memPoolInit, if_pos small, Option.some.injEq] at begun
    subst begun
    have below : pool + 16 < 2 ^ 64 := by omega
    refine ⟨⟨small, high, fun some => absurd rfl some, fun _ there => absurd there List.not_mem_nil, List.Pairwise.nil⟩, ?_,
      List.Perm.refl _, rfl, fun _ => Nat.zero_le _⟩
    refine ⟨?_, Memory.queue_init_ring _ _ below, fun cell there => ?_, by simp [queued, entryFreelist, entryBlocklist]⟩
    · have first := Memory.queue_init_ring (mem.put pool (List.replicate poolSize 0)) pool (by omega)
      have apart (addr : Nat) (behind : pool + 16 ≤ addr) (node : Nat) (there : node ∈ [pool]) :
          addr + 8 ≤ node ∨ node + 16 ≤ addr := .inr (by rwa [List.mem_singleton.mp there])
      exact Memory.store_ring _ _ _ _ _ (Memory.store_ring _ _ _ _ _ first (apart _ (Nat.le_refl _))) (apart _ (Nat.le_add_right _ 8))
    · simpa [queued, cells, nodesIn] using there
  · rw [memPoolInit, if_neg small] at begun
    simp at begun

section Holds

variable (s : MemPool) (live free : List Nat) (holds : Holds s live free)
include holds

theorem holds_nodup : (live ++ free).Nodup := by
  have away := nodes_in_away _ _ _ _ holds.layout
  exact holds.all.nodup_iff.mpr (away_nodup _ _ (by rw [span, nodeHeader]; omega) away)

theorem holds_count : live.length < 2 ^ 63 := by
  have count := nodes_in_count _ _ _ _ holds.layout
  rw [← holds.all.length_eq, List.length_append] at count
  omega

theorem live_node (node : Nat) (there : node ∈ live) : node ∈ nodesIn s.blockSize s.nodeSize s.blocks :=
  holds.all.subset (List.mem_append_left free there)

-- A node of the pool is no cell of another kind.
theorem live_unqueued (node : Nat) (there : node ∈ live) : node ∉ queued s.pool free s.blocks := by
  have member := live_node s live free holds node there
  have distinct := cells_nodup _ _ _ _ holds.layout
  obtain ⟨first, others⟩ := List.nodup_cons.mp distinct
  obtain ⟨second, rest⟩ := List.nodup_cons.mp others
  have unfree := (List.nodup_append.mp (holds_nodup s live free holds)).2.2 node there node
  have unblock := fun block => (List.nodup_append.mp rest).2.2 node block node member rfl
  simp only [queued, List.mem_append, List.mem_cons, not_or]
  refine ⟨⟨fun same => ?_, fun here => unfree here rfl⟩, fun same => ?_, unblock⟩
  · exact first (List.mem_cons_of_mem _ (List.mem_append_right _ (same ▸ member)))
  · exact second (List.mem_append_right _ (same ▸ member))

theorem holds_right (ended : Bool) : PoolRight ⟨s, live, ended⟩ := by
  have away := nodes_in_away _ _ _ _ holds.layout
  exact {
    chained := holds.queues.blocklist
    inside := fun node there => nodes_in_inside _ _ _ _ holds.layout node (live_node s live free holds node there)
    apart := ((holds.all.pairwise_iff fun {one other} => away_symm _ one _).mpr away).sublist (List.sublist_append_left live free)
    once := ⟨free, holds.queues.freelist, holds_nodup s live free holds, holds.all⟩
    used := holds.used
    limit := holds.limit }

-- A store inside of a node, once the node is off the queues or the store is
-- behind its links.
theorem node_put (mem : Memory) (freed : List Nat) (queues : Queues (cells s.blockSize s.nodeSize s.pool s.blocks) s.pool mem freed s.blocks)
    (node addr : Nat) (text : List UInt8) (there : node ∈ nodesIn s.blockSize s.nodeSize s.blocks) (low : node ≤ addr)
    (high : addr + text.length ≤ node + span s.nodeSize) (off : node ∈ queued s.pool freed s.blocks → node + 16 ≤ addr) :
    Queues (cells s.blockSize s.nodeSize s.pool s.blocks) s.pool (mem.put addr text) freed s.blocks := by
  refine queues_put _ _ mem _ _ queues addr text fun cell inside => ?_
  by_cases same : cell = node
  · exact .inr (same ▸ off (same ▸ inside))
  · have beside := node_beside _ _ _ _ holds.layout node cell there (queues.inside inside) same
    omega

theorem write_holds (node offset : Nat) (byte : UInt8) (there : node ∈ live) (within : offset < span s.nodeSize) :
    Holds { s with mem := s.mem.put (node + offset) [byte] } live free where
  layout := holds.layout
  queues := node_put s live free holds _ free holds.queues node _ _ (live_node s live free holds node there)
    (Nat.le_add_right _ _) (by rw [List.length_singleton]; omega) fun queued => absurd queued (live_unqueued s live free holds node there)
  all := holds.all
  used := holds.used
  limit := holds.limit

theorem free_holds (node : Nat) (there : node ∈ live) : Holds (poolFree s node) (live.erase node) (free ++ [node]) := by
  have member := live_node s live free holds node there
  have inside : node ∈ cells _ _ s.pool _ := List.mem_cons_of_mem _ (List.mem_cons_of_mem _ (List.mem_append_right _ member))
  have queues := queues_free _ _ _ free _ holds.queues (cells_places _ _ _ _ holds.layout) node inside
    (live_unqueued s live free holds node there)
  have count := List.length_erase_of_mem there
  have some := List.length_pos_of_mem there
  have few := holds_count s live free holds
  exact {
    layout := holds.layout
    queues := node_put s live free holds _ _ queues node _ _ member (Nat.le_add_right _ _)
      (by rw [Memory.bytes_length, span, nodeHeader]; omega) fun _ => Nat.le_refl _
    all := by
      refine List.Perm.trans ?_ holds.all
      rw [← List.append_assoc]
      refine (List.perm_append_singleton node _).trans ?_
      rw [← List.cons_append]
      exact (List.perm_cons_erase there).symm.append_right free
    used := by
      rw [show (poolFree s node).totalUsedNodes = word _ from rfl, holds.used, count, word]
      omega
    limit := holds.limit }

end Holds

theorem take_holds (s : MemPool) (live rest : List Nat) (node size : Nat) (holds : Holds s live (node :: rest)) :
    ∃ taken, takeNode s size = (.node node, taken) ∧ Holds taken (live ++ [node]) rest := by
  have head := queues_head _ _ _ node rest _ holds.queues
  have member : node ∈ nodesIn _ _ _ := holds.all.subset (List.mem_append_right live List.mem_cons_self)
  have queues := queues_take _ (cells_places _ _ _ _ holds.layout) _ _ node rest _ holds.queues
  have off : node ∉ queued s.pool rest s.blocks := by
    have moved : (queued s.pool _ s.blocks).Perm _ := (List.Perm.swap node _ rest).append_right _
    exact (List.nodup_cons.mp (moved.nodup_iff.mp holds.queues.distinct)).1
  have few := holds_count s live _ holds
  refine ⟨_, by rw [takeNode, head], ?_⟩
  exact {
    layout := holds.layout
    queues := node_put s live _ holds _ rest queues node node _ member (Nat.le_refl _)
      (by rw [List.length_append, Memory.bytes_length, Memory.bytes_length, span, nodeHeader]; omega) fun here => absurd here off
    all := by simpa using holds.all
    used := by
      show word _ = (live ++ [node]).length
      rw [holds.used, List.length_append, List.length_singleton, word]
      omega
    limit := holds.limit }

section Expand

variable (s : MemPool) (live : List Nat) (blk : Nat) (holds : Holds s live []) (given : Given s blk)
  (cuts : Cuts s.blockSize s.nodeSize)
include holds given cuts

theorem expand_layout : Layout s.blockSize s.nodeSize s.pool (s.blocks ++ [blk]) := by
  obtain ⟨high, beside, away⟩ := given
  rw [word, Nat.mod_eq_of_lt cuts.size] at high beside away
  refine ⟨holds.layout.small, holds.layout.high, fun _ => cuts, fun block there => ?_, ?_⟩
  · rcases List.mem_append.mp there with old | new
    · exact holds.layout.placed _ old
    · rw [List.mem_singleton.mp new]
      exact ⟨high, beside⟩
  · refine List.pairwise_append.mpr ⟨holds.layout.away, List.pairwise_singleton _ blk, fun block old new here => ?_⟩
    rw [List.mem_singleton.mp here]
    exact away _ old

omit holds in
-- The new block's header is beside the queues' links.
theorem header_beside (cell : Nat) (there : cell ∈ queued s.pool [] s.blocks) : blk + blockHeader ≤ cell ∨ cell + 16 ≤ blk := by
  obtain ⟨-, beside, away⟩ := given
  rw [word, Nat.mod_eq_of_lt cuts.size] at beside away
  rw [poolSize] at beside
  simp only [queued, List.singleton_append, List.mem_cons, entryFreelist, entryBlocklist] at there
  rcases there with same | same | block
  · omega
  · omega
  · have apart := away cell block
    rw [Away] at apart
    rw [blockHeader] at apart ⊢
    omega

theorem filled_queues : Queues (cells s.blockSize s.nodeSize s.pool (s.blocks ++ [blk])) s.pool
    ((s.mem.store (blk + 16) s.blockSize).store (blk + 24) (blk + blockHeader)) [] s.blocks := by
  have beside := header_beside s blk given cuts
  rw [blockHeader] at beside
  have grown : Queues (cells s.blockSize s.nodeSize s.pool (s.blocks ++ [blk])) s.pool s.mem [] s.blocks := by
    refine ⟨holds.queues.freelist, holds.queues.blocklist, fun cell there => ?_, holds.queues.distinct⟩
    simp only [queued, List.singleton_append, List.mem_cons] at there
    simp only [cells, List.mem_cons, List.mem_append]
    exact there.imp_right fun later => later.imp_right fun block => .inl (.inl block)
  have stored := queues_put _ _ _ _ _ grown (blk + 16) (Memory.bytes 8 s.blockSize) fun cell there => by
    have := beside cell there
    rw [Memory.bytes_length]
    omega
  exact queues_put _ _ _ _ _ stored (blk + 24) (Memory.bytes 8 (blk + blockHeader)) fun cell there => by
    have := beside cell there
    rw [Memory.bytes_length]
    omega

theorem header_queues : Queues (cells s.blockSize s.nodeSize s.pool (s.blocks ++ [blk])) s.pool
    (((s.mem.store (blk + 16) s.blockSize).store (blk + 24) (blk + blockHeader)).insertTail (entryBlocklist s.pool) blk)
    [] (s.blocks ++ [blk]) := by
  have places := cells_places _ _ _ _ (expand_layout s live blk holds given cuts)
  exact queues_block _ _ _ _ _ (filled_queues s live blk holds given cuts) places blk (by simp [cells]) fun here => by
    have := header_beside s blk given cuts blk here
    rw [blockHeader] at this
    omega

-- The nodes of the block are cells that are on no queue yet.
theorem fresh_nodes : (nodesOf s.blockSize s.nodeSize blk ++ queued s.pool [] (s.blocks ++ [blk])).Nodup ∧
    nodesOf s.blockSize s.nodeSize blk ⊆ cells s.blockSize s.nodeSize s.pool (s.blocks ++ [blk]) := by
  have distinct := cells_nodup _ _ _ _ (expand_layout s live blk holds given cuts)
  have behind : (nodesOf s.blockSize s.nodeSize blk).Sublist (nodesIn s.blockSize s.nodeSize (s.blocks ++ [blk])) := by
    rw [nodesIn, List.flatMap_append, List.flatMap_singleton]
    exact List.sublist_append_right _ _
  have fewer : (queued s.pool [] (s.blocks ++ [blk]) ++ nodesOf _ _ blk).Sublist
      _ :=
    ((behind.append_left _).cons_cons _).cons_cons _
  exact ⟨List.perm_append_comm.nodup_iff.mp (distinct.sublist fewer), fun node there => fewer.subset (List.mem_append_right _ there)⟩

theorem expand_queues : ∃ mem, mempoolExpand s blk = some { s with mem := mem, blocks := s.blocks ++ [blk] } ∧
    Queues (cells s.blockSize s.nodeSize s.pool (s.blocks ++ [blk])) s.pool mem (nodesOf s.blockSize s.nodeSize blk) (s.blocks ++ [blk]) ∧
    ∀ place, Memory.Beside place (nodesOf s.blockSize s.nodeSize blk ++ queued s.pool [] (s.blocks ++ [blk])) →
      (place < blk ∨ blk + blockHeader ≤ place) → mem place = s.mem place := by
  have layout := expand_layout s live blk holds given cuts
  obtain ⟨unused, there⟩ := fresh_nodes s live blk holds given cuts
  have placed := (layout.placed blk (List.mem_append_right _ (List.mem_singleton_self blk))).1
  have small := layout.small
  rw [maxPoolNodeSize] at small
  rw [blockHeader] at placed
  have room := Nat.div_mul_le_self s.blockSize s.nodeSize
  have full := Nat.lt_div_mul_add (cuts_positive _ _ cuts) (a := s.blockSize)
  have fits : word _ = blk + blockHeader + s.blockSize := Nat.mod_eq_of_lt (by rw [blockHeader]; omega)
  obtain ⟨mem, expanded, queues, kept⟩ := pool_expand_queues _ (cells_places _ _ _ _ layout) _ _ _
    (blk + blockHeader + s.blockSize) (by rw [blockHeader]; omega) _ _ _ _ []
    (Nat.lt_succ_of_le (Nat.div_le_self _ _)) (by omega) (by rw [Nat.succ_mul]; omega) (header_queues s live blk holds given cuts) there unused
  refine ⟨mem, ?_, queues, fun place beside apart => ?_⟩
  · rw [mempoolExpand, fits]
    exact congrArg _ expanded
  · rw [blockHeader] at apart
    have filled := filled_queues s live blk holds given cuts
    have other (cell : Nat) (there : cell ∈ entryBlocklist s.pool :: s.blocks) := beside cell <|
      List.mem_append_right _ (List.mem_append_right _ (by simpa using (List.mem_cons.mp there).imp_right .inl))
    rw [kept place beside, Memory.insert_tail_beside _ place _ (cells_places _ _ _ _ layout) _ _ _ filled.blocklist
      (block_inside _ _ _ _ _ filled) other (by omega), Memory.store_beside _ _ _ _ (by omega), Memory.store_beside _ _ _ _ (by omega)]

theorem expand_holds (one : s.autoExtend = true ∨ s.blocks = []) :
    ∃ grown, mempoolExpand s blk = some grown ∧ Holds grown live (nodesOf s.blockSize s.nodeSize blk) := by
  obtain ⟨mem, expanded, queues, _⟩ := expand_queues s live blk holds given cuts
  refine ⟨_, expanded, expand_layout s live blk holds given cuts, queues, ?_, holds.used, fun fixed => ?_⟩
  · have all := holds.all
    rw [List.append_nil] at all
    rw [nodesIn, List.flatMap_append, List.flatMap_singleton]
    exact all.append_right _
  · rcases one with more | none
    · exact absurd (more.symm.trans fixed) (by decide)
    · rw [none, List.nil_append, List.length_singleton]

end Expand

-- What pool_malloc leaves behind, by its answer.
def Answered (s : MemPool) (live free : List Nat) (size : Nat) : Reply × MemPool → Prop
  | (.node addr, after) => ∃ rest, Holds after (live ++ [addr]) rest
  | (.null, after) => Holds after live free
  | (.aborted, after) => Holds after live free ∧ (size = 0 ∨ s.nodeSize < size)
  | (.hung, _) => False

theorem malloc_answered (s : MemPool) (live free : List Nat) (size : Nat) (answer : Option Nat) (holds : Holds s live free)
    (given : ∀ blk, answer = some blk → Given s blk)
    (meets : ∀ blk, answer = some blk → 0 < size → size ≤ s.nodeSize → s.mem.queueEmpty (entryFreelist s.pool) = true →
      Cuts s.blockSize s.nodeSize ∧ (s.autoExtend = true ∨ s.blocks = [])) :
    Answered s live free size (poolMalloc s size answer) := by
  have empty : s.mem.queueEmpty _ = true ↔ free = [] :=
    Memory.queue_empty_iff _ _ free holds.queues.freelist (List.nodup_append.mp holds.queues.distinct).1
  have taken (s : MemPool) (node : Nat) (rest : List Nat) (holds : Holds s live (node :: rest)) :
      Answered s live free size (takeNode s size) := by
    obtain ⟨after, took, kept⟩ := take_holds s live rest node size holds
    rw [took]
    exact ⟨rest, kept⟩
  unfold poolMalloc
  by_cases bad : size = 0 ∨ s.nodeSize < size
  · rw [if_pos bad]
    exact ⟨holds, bad⟩
  rw [if_neg bad]
  cases free with
  | cons node rest =>
    rw [if_neg fun none => List.cons_ne_nil node rest (empty.mp none)]
    exact taken s node rest holds
  | nil =>
    rw [if_pos (empty.mpr rfl)]
    by_cases fixed : s.autoExtend = false ∧ s.totalBlocks ≠ 0
    · rw [if_pos fixed]
      exact holds
    rw [if_neg fixed]
    cases answer with
    | none => exact holds
    | some blk =>
      obtain ⟨cuts, one⟩ := meets blk rfl (by omega) (by omega) (empty.mpr rfl)
      obtain ⟨grown, expanded, kept⟩ := expand_holds s live blk holds (given blk rfl) cuts one
      simp only [expanded]
      -- At least one node: the block is no smaller than a node.
      have some := Nat.div_pos cuts.some (cuts_positive _ _ cuts)
      obtain ⟨count, many⟩ := Nat.exists_eq_add_of_lt some
      rw [nodesOf, many, nodesFrom] at kept
      exact taken grown _ _ kept

theorem alloc_answered (s : Use) (free : List Nat) (size : Nat) (answer : Option Nat) (holds : Holds s.pool s.live free)
    (allowed : Allowed s (.alloc size answer)) (meets : Meets s (.alloc size answer)) :
    Answered s.pool s.live free size (poolMalloc s.pool size answer) := by
  refine malloc_answered _ _ free size _ holds (fun blk same => ?_) fun blk same => ?_
  · rw [same] at allowed
    exact allowed
  · rw [same] at meets
    exact meets

theorem step_holds (s : Use) (call : PoolCall) (holds : ∃ free, Holds s.pool s.live free) (fine : Allowed s call ∧ Meets s call) :
    ∃ free, Holds (poolStep s call).pool (poolStep s call).live free := by
  obtain ⟨free, holds⟩ := holds
  by_cases ended : s.ended = true
  · rw [poolStep.eq_def, if_pos ended]
    exact ⟨free, holds⟩
  rw [poolStep.eq_def, if_neg ended]
  cases call with
  | alloc size answer =>
    have answered := alloc_answered s free size _ holds fine.1 fine.2
    dsimp only
    revert answered
    rcases poolMalloc _ size _ with ⟨reply, after⟩
    cases reply with
    | node addr => exact id
    | null => exact fun kept => ⟨free, kept⟩
    | aborted => exact fun kept => ⟨free, kept.1⟩
    | hung => exact False.elim
  | free node => exact ⟨free ++ [node], free_holds _ _ free holds node fine.1⟩
  | write node offset byte => exact ⟨free, write_holds _ _ free holds node _ byte fine.1.1 fine.1.2⟩

theorem answer_right (s : Use) (call : PoolCall) (holds : ∃ free, Holds s.pool s.live free) (fine : Allowed s call ∧ Meets s call) :
    AnswerRight s call := by
  obtain ⟨free, holds⟩ := holds
  cases call with
  | free => trivial
  | write => trivial
  | alloc size answer =>
    intro _
    have answered := alloc_answered s free size _ holds fine.1 fine.2
    revert answered
    rcases poolMalloc _ size _ with ⟨reply, after⟩
    cases reply with
    | null => exact fun _ => trivial
    | aborted => exact fun kept => kept.2
    | hung => exact False.elim
    | node addr =>
      rintro ⟨rest, kept⟩
      have last : addr ∈ s.live ++ [addr] := List.mem_append_right _ (List.mem_singleton_self addr)
      have right := holds_right _ _ rest kept false
      refine ⟨fun head => live_unqueued _ _ rest kept addr last ?_, right.inside addr last, fun node there => ?_⟩
      · rw [head]
        exact List.mem_append_left _ List.mem_cons_self
      · exact (List.pairwise_append.mp right.apart).2.2 node there addr (List.mem_singleton_self addr)

theorem pool_sound (mem : Memory) (pool blockSize nodeSize : Nat) (autoExtend : Bool) (start : MemPool) (calls : List PoolCall)
    (high : pool + poolSize < 2 ^ 63) (begun : memPoolInit mem pool blockSize nodeSize = some start)
    (steps : AllSteps poolStep (fun s call => Allowed s call ∧ Meets s call) (poolUse start autoExtend) calls) :
    PoolRight (run poolStep (poolUse start autoExtend) calls) ∧ AllSteps poolStep AnswerRight (poolUse start autoExtend) calls := by
  have initial : ∃ free, Holds _ _ free := ⟨[], init_holds mem pool _ _ autoExtend _ high begun⟩
  constructor
  · obtain ⟨free, holds⟩ := run_keeps poolStep _ _ _ _ initial step_holds steps
    exact holds_right _ _ free holds _
  · exact all_steps_keeps _ _ _ _ _ _ initial step_holds answer_right steps

theorem pool_sound_sample : ∃ start, memPoolInit (fun _ => 0) 4096 64 24 = some start ∧
      PoolRight (run poolStep (poolUse start true)
        [.alloc 8 (some 8192), .alloc 24 none, .write 8248 23 7, .free 8224, .alloc 1 none, .alloc 9 (some 16384)]) ∧
      AllSteps poolStep AnswerRight (poolUse start true)
        [.alloc 8 (some 8192), .alloc 24 none, .write 8248 23 7, .free 8224, .alloc 1 none, .alloc 9 (some 16384)] :=
  ⟨_, if_pos (by decide), pool_sound _ 4096 64 24 true _ _ (by decide) (if_pos (by decide)) (by decide +kernel)⟩

-- A block that is smaller than a node: what is taken off the free list is the
-- list's head.
theorem head_given : ∃ start, memPoolInit (fun _ => 0) 4096 8 24 = some start ∧
      AllSteps poolStep Allowed (poolUse start true) [.alloc 8 (some 8192)] ∧
      (poolMalloc (poolUse start true).pool 8 (some 8192)).1 = .node (entryFreelist 4096) ∧
      ¬ AllSteps poolStep AnswerRight (poolUse start true) [.alloc 8 (some 8192)] :=
  ⟨_, if_pos (by decide), by decide +kernel, by decide +kernel, by decide +kernel⟩

-- pool_malloc does not count its blocks, so nothing keeps a pool that must not
-- grow from a second one.
example : (memPoolInit (fun _ => 0) 4096 24 24).map (fun start =>
    (run poolStep (poolUse start false) [.alloc 8 (some 8192), .alloc 8 (some 16384)]).pool.blocks) = some [8192, 16384] := by
  decide +kernel

section Bytes

variable (s : MemPool) (live : List Nat) (node offset : Nat) (there : node ∈ live) (inside : offset < span s.nodeSize)
include there inside

theorem live_beside (free : List Nat) (holds : Holds s live free) : Memory.Beside (node + offset) (queued s.pool free s.blocks) := by
  intro cell queued
  have apart : cell ≠ node := fun same => live_unqueued s live free holds node there (same ▸ queued)
  have beside := node_beside _ _ _ _ holds.layout node cell (live_node s live free holds node there) (holds.queues.inside queued) apart
  omega

-- Another node is beside the bytes of a live one.
theorem live_apart (free : List Nat) (holds : Holds s live free) (other : Nat) (among : other ∈ live ++ free) (different : other ≠ node) :
    node + offset < other ∨ other + span s.nodeSize ≤ node + offset := by
  have away := away_pair _ _ (nodes_in_away _ _ _ _ holds.layout) _ _ (holds.all.subset among) (live_node s live free holds node there)
    different
  rw [Away] at away
  omega

theorem free_bytes (free : List Nat) (holds : Holds s live free) (ptr : Nat) (own : ptr ∈ live) (different : ptr ≠ node) :
    (poolFree s ptr).mem (node + offset) = s.mem (node + offset) := by
  have apart := live_apart s live node offset there inside free holds ptr (List.mem_append_left free own) different
  have beside := live_beside s live node offset there inside free holds
  rw [span, nodeHeader] at apart
  refine (Memory.store_beside _ _ (ptr + 16) _ (by omega)).trans ?_
  exact Memory.insert_tail_beside s.mem _ _ (cells_places _ _ _ _ holds.layout) _ _ free holds.queues.freelist
    (free_inside _ _ _ _ _ holds.queues) (fun cell member => beside cell (List.mem_append_left _ member)) (by omega)

theorem take_bytes (first size : Nat) (rest : List Nat) (holds : Holds s live (first :: rest)) :
    (takeNode s size).2.mem (node + offset) = s.mem (node + offset) := by
  have listed : first ∈ live ++ first :: rest := List.mem_append_right live List.mem_cons_self
  have different : first ≠ node := fun same =>
    (List.nodup_append.mp (holds_nodup s live _ holds)).2.2 node there first List.mem_cons_self same.symm
  have apart := live_apart s live node offset there inside _ holds first listed different
  have beside := live_beside s live node offset there inside _ holds
  have head := queues_head _ _ _ first rest _ holds.queues
  rw [span, nodeHeader] at apart
  rw [takeNode, head]
  refine (Memory.put_beside _ _ first _ ?_).trans ?_
  · rw [List.length_append, Memory.bytes_length, Memory.bytes_length]
    omega
  · exact Memory.remove_beside s.mem _ _ (cells_places _ _ _ _ holds.layout) _ first _ holds.queues.freelist
      (free_inside _ _ _ _ _ holds.queues) (fun cell member => beside cell (List.mem_append_left _ member))
      (List.mem_cons_of_mem _ List.mem_cons_self)

theorem expand_bytes (blk : Nat) (holds : Holds s live []) (given : Given s blk) (cuts : Cuts s.blockSize s.nodeSize) (grown : MemPool)
    (expanded : mempoolExpand s blk = some grown) : grown.nodeSize = s.nodeSize ∧ grown.mem (node + offset) = s.mem (node + offset) := by
  obtain ⟨mem, found, _, kept⟩ := expand_queues s live blk holds given cuts
  obtain rfl := Option.some.inj (found.symm.trans expanded)
  obtain ⟨home, member, front, back⟩ := nodes_in_inside _ _ _ _ holds.layout node (live_node s live [] holds node there)
  have away := given.2.2 home member
  rw [word, Nat.mod_eq_of_lt cuts.size, Away] at away
  have outside : node + offset < blk ∨ blk + (blockHeader + s.blockSize) ≤ node + offset := by omega
  refine ⟨rfl, kept _ (fun cell among => ?_) (by omega)⟩
  rcases List.mem_append.mp among with fresh | queued
  · have within := node_inside _ _ cuts blk cell fresh
    rw [span, nodeHeader] at within
    omega
  · rcases List.mem_append.mp queued with front | blocks
    · exact live_beside s live node offset there inside [] holds cell (List.mem_append_left _ front)
    rcases List.mem_cons.mp blocks with lead | block
    · exact live_beside s live node offset there inside [] holds cell (List.mem_append_right _ (lead ▸ List.mem_cons_self))
    rcases List.mem_append.mp block with old | new
    · exact live_beside s live node offset there inside [] holds cell (List.mem_append_right _ (List.mem_cons_of_mem _ old))
    · rw [List.mem_singleton.mp new]
      rw [blockHeader] at outside
      omega

theorem malloc_bytes (free : List Nat) (size : Nat) (answer : Option Nat) (holds : Holds s live free)
    (allowed : ∀ blk, answer = some blk → Given s blk)
    (meets : ∀ blk, answer = some blk → 0 < size → size ≤ s.nodeSize → s.mem.queueEmpty (entryFreelist s.pool) = true →
      Cuts s.blockSize s.nodeSize ∧ (s.autoExtend = true ∨ s.blocks = [])) :
    (poolMalloc s size answer).2.mem (node + offset) = s.mem (node + offset) ∧ (poolMalloc s size answer).2.nodeSize = s.nodeSize := by
  have empty : s.mem.queueEmpty _ = true ↔ free = [] :=
    Memory.queue_empty_iff _ _ free holds.queues.freelist (List.nodup_append.mp holds.queues.distinct).1
  unfold poolMalloc
  by_cases bad : size = 0 ∨ s.nodeSize < size
  · rw [if_pos bad]
    exact ⟨rfl, rfl⟩
  rw [if_neg bad]
  cases free with
  | cons first rest =>
    rw [if_neg fun none => List.cons_ne_nil first rest (empty.mp none)]
    exact ⟨take_bytes s live node offset there inside first size rest holds, by rw [takeNode]⟩
  | nil =>
    rw [if_pos (empty.mpr rfl)]
    by_cases fixed : s.autoExtend = false ∧ s.totalBlocks ≠ 0
    · rw [if_pos fixed]
      exact ⟨rfl, rfl⟩
    rw [if_neg fixed]
    cases answer with
    | none => exact ⟨rfl, rfl⟩
    | some blk =>
      obtain ⟨cuts, one⟩ := meets blk rfl (by omega) (by omega) (empty.mpr rfl)
      obtain ⟨grown, expanded, more⟩ := expand_holds _ _ blk holds (allowed blk rfl) cuts one
      obtain ⟨same, bytes⟩ := expand_bytes _ _ node offset there inside blk holds (allowed blk rfl) cuts grown expanded
      simp only [expanded]
      obtain ⟨count, many⟩ := Nat.exists_eq_add_of_lt (Nat.div_pos cuts.some (cuts_positive _ _ cuts))
      rw [nodesOf, many, nodesFrom] at more
      refine ⟨(take_bytes grown live node offset there (same ▸ inside) _ size _ more).trans bytes, ?_⟩
      rw [takeNode]
      exact same

end Bytes

-- The byte an owner finds at a place of its node after a call.
def written (node offset : Nat) (byte : UInt8) : PoolCall → UInt8
  | .write other place value => if other = node ∧ place = offset then value else byte
  | _ => byte

-- The calls while a node is in use.
def Spares (node : Nat) (s : Use) (call : PoolCall) : Prop := s.ended = false ∧ (Allowed s call ∧ Meets s call) ∧ call ≠ .free node

deriving instance DecidableEq for PoolCall

instance (node : Nat) (s : Use) (call : PoolCall) : Decidable (Spares node s call) := inferInstanceAs (Decidable (_ ∧ (_ ∧ _) ∧ _))

theorem step_bytes (s : Use) (call : PoolCall) (node offset : Nat) (holds : ∃ free, Holds s.pool s.live free) (there : node ∈ s.live)
    (inside : offset < span s.pool.nodeSize) (spares : Spares node s call) :
    (poolStep s call).pool.mem (node + offset) = written node offset (s.pool.mem (node + offset)) call ∧
      node ∈ (poolStep s call).live ∧ (poolStep s call).pool.nodeSize = s.pool.nodeSize := by
  obtain ⟨free, holds⟩ := holds
  obtain ⟨going, ⟨allowed, meets⟩, kept⟩ := spares
  rw [poolStep.eq_def, if_neg (by rw [going]; decide)]
  cases call with
  | free ptr =>
    have different : ptr ≠ node := fun same => kept (congrArg _ same)
    dsimp only [written]
    exact ⟨free_bytes _ _ node offset there inside free holds ptr allowed different, (List.mem_erase_of_ne different.symm).mpr there, rfl⟩
  | write other place value =>
    dsimp only [written]
    refine ⟨?_, there, rfl⟩
    by_cases same : other = node ∧ place = offset
    · rw [if_pos same, same.1, same.2]
      simp [Memory.put]
    · rw [if_neg same]
      refine Memory.put_beside _ _ _ _ ?_
      rw [List.length_singleton]
      by_cases own : other = node
      · have apart : place ≠ offset := fun equal => same ⟨own, equal⟩
        omega
      · have apart := live_apart _ _ node offset there inside free holds other (List.mem_append_left free allowed.1) own
        have within := allowed.2
        omega
  | alloc size answer =>
    have found := malloc_bytes _ _ node offset there inside free size answer holds
      (fun blk same => by rw [same] at allowed; exact allowed) fun blk same => by rw [same] at meets; exact meets
    dsimp only [written]
    revert found
    rcases poolMalloc _ size _ with ⟨reply, after⟩
    cases reply with
    | node addr => exact fun found => ⟨found.1, List.mem_append_left _ there, found.2⟩
    | null => exact fun found => ⟨found.1, there, found.2⟩
    | aborted => exact fun found => ⟨found.1, there, found.2⟩
    | hung => exact fun found => ⟨found.1, there, found.2⟩

theorem run_bytes (calls : List PoolCall) (s : Use) (node offset : Nat) (holds : ∃ free, Holds s.pool s.live free) (there : node ∈ s.live)
    (inside : offset < span s.pool.nodeSize) (spares : AllSteps poolStep (Spares node) s calls) :
    (run poolStep s calls).pool.mem (node + offset) = calls.foldl (written node offset) (s.pool.mem (node + offset)) := by
  induction calls generalizing s with
  | nil => rfl
  | cons call rest ih =>
    obtain ⟨byte, live, same⟩ := step_bytes s call node offset holds there inside spares.1
    rw [run_cons, List.foldl_cons, ← byte]
    exact ih _ (step_holds s call holds spares.1.2.1) live (same ▸ inside) spares.2

theorem live_bytes_kept (mem : Memory) (pool blockSize nodeSize : Nat) (autoExtend : Bool) (start : MemPool) (before after : List PoolCall)
    (high : pool + poolSize < 2 ^ 63) (begun : memPoolInit mem pool blockSize nodeSize = some start)
    (steps : AllSteps poolStep (fun s call => Allowed s call ∧ Meets s call) (poolUse start autoExtend) before) (s : Use)
    (reached : run poolStep (poolUse start autoExtend) before = s) (node offset : Nat) (there : node ∈ s.live)
    (inside : offset < span s.pool.nodeSize) (spares : AllSteps poolStep (Spares node) s after) :
    (run poolStep s after).pool.mem (node + offset) = after.foldl (written node offset) (s.pool.mem (node + offset)) := by
  have initial : ∃ free, Holds _ _ free := ⟨[], init_holds mem pool _ _ autoExtend _ high begun⟩
  have holds := run_keeps poolStep _ _ _ _ initial step_holds steps
  rw [reached] at holds
  exact run_bytes after s node offset holds there inside spares

theorem live_bytes_kept_sample : ∃ start, memPoolInit (fun _ => 0) 4096 64 24 = some start ∧
      (run poolStep (run poolStep (poolUse start true) [.alloc 8 (some 8192), .alloc 24 none])
        [.write 8224 23 7, .write 8248 0 9, .free 8248, .alloc 3 none, .alloc 9 (some 16384)]).pool.mem (8224 + 23) = 7 :=
  ⟨_, if_pos (by decide), (live_bytes_kept _ 4096 64 24 true _ [.alloc 8 (some 8192), .alloc 24 none] _ (by decide) (if_pos (by decide))
    (by decide +kernel) _ rfl 8224 23 (by decide +kernel) (by decide +kernel) (by decide +kernel)).trans (by rfl)⟩

end Codec.Mempool
