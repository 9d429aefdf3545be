import Mathlib.Algebra.Ring.Int.Defs
import Codec.Lib.SystemHeap

set_option autoImplicit false

namespace Codec.Ems

open Codec.Lib

def blockSize : Nat := 65536
def maxChunkSize : Nat := 2048
def memFactor : Nat := 2

-- mem_pool_init_class: the sz_chunk of the classes in their order, and what
-- max_chunk is in the end.
def initClassLoop : Nat → Nat → List Nat × Nat
  | 0, maxChunk => ([], maxChunk)
  | count + 1, maxChunk =>
    if maxChunk ≤ maxChunkSize then
      let rest := initClassLoop count (maxChunk * memFactor)
      (maxChunk :: rest.1, rest.2)
    else ([], maxChunk)

-- mem_pool_init: min_chunk 16, maxcls 10.
def classes : List Nat := (initClassLoop 10 16).1
def maxChunk : Nat := (initClassLoop 10 16).2

def perslab (cls : Nat) : Nat := blockSize / cls

def sizeofSlab : Nat := 64

-- mem_slab: where the struct, _buf (which is _head; _tail is 64K behind it)
-- and map.super lie, and map.super itself with BLOCK_USED as true. A class is
-- named by its sz_chunk.
structure MemSlab where
  self : Nat
  buf : Nat
  superAt : Nat
  super : List Bool
  cur : Nat
  left : Nat
  cls : Nat
  deriving DecidableEq, Repr

-- mem_mgmt and the system's memory under it. The list of a class holds the
-- slabs with that class, in this order.
structure MemPool where
  slabs : List MemSlab
  heap : SysHeap

section Slab

variable (slab : MemSlab)

def blockFree (cur : Nat) : Bool := slab.super[cur]? = some false

def getBlockLoop (tail : Nat) : Nat → Nat → Option Nat
  | 0, _ => none
  | fuel + 1, cur =>
    if tail = cur then none
    else if blockFree slab cur then some cur
    else getBlockLoop tail fuel ((cur + 1) % perslab slab.cls)

def memSlabGetBlock : Option Nat :=
  if blockFree slab slab.cur then some slab.cur
  else getBlockLoop slab slab.cur (perslab slab.cls) ((slab.cur + 1) % perslab slab.cls)

def memSlabMalloc : Option Nat × MemSlab :=
  if slab.left = 0 then (none, slab)
  else
    match memSlabGetBlock slab with
    | none => (none, slab)
    | some cur =>
      (some (slab.buf + cur * slab.cls),
        { slab with super := slab.super.set cur true, cur := (cur + 1) % perslab slab.cls, left := slab.left - 1 })

def memSlabRelease (ptr : Nat) : MemSlab :=
  let cur := (ptr - slab.buf) / slab.cls
  if cur < perslab slab.cls then
    let super := slab.super.set cur false
    { slab with super := super, left := slab.left + 1, cur := if super[slab.cur]? = some true then cur else slab.cur }
  else slab

end Slab

def replaceSlab (slabs : List MemSlab) (slab : MemSlab) : List MemSlab :=
  slabs.map fun other => if other.self = slab.self then slab else other

def memPoolGetClass (sz : Int) : Option Nat := classes.find? fun cls => sz ≤ cls

def memPoolSlabFind (slabs : List MemSlab) (cls : Nat) : Option MemSlab :=
  slabs.find? fun slab => slab.cls = cls && 0 < slab.left

def memPoolFindPtr (slabs : List MemSlab) (ptr : Nat) : Option MemSlab :=
  classes.findSome? fun cls => slabs.find? fun slab => slab.cls = cls && slab.buf ≤ ptr && ptr < slab.buf + blockSize

-- An ems_int where a size_t is wanted.
def sizeT (sz : Int) : Nat := (sz % 2 ^ 64).toNat

section Pool

variable (libc : LibC) (pool : MemPool)

-- malloc of the struct, then mem_pool_slab_init.
def memPoolSlabNew (cls : Nat) : Option MemSlab × SysHeap :=
  match sysMalloc libc pool.heap sizeofSlab with
  | (none, heap) => (none, heap)
  | (some self, heap) =>
    match sysMalloc libc heap blockSize with
    | (none, heap) => (none, sysFree libc heap self)
    | (some buf, heap) =>
      match sysMalloc libc heap (perslab cls + 1) with
      | (none, heap) => (none, sysFree libc (sysFree libc heap buf) self)
      | (some superAt, heap) => (some ⟨self, buf, superAt, List.replicate (perslab cls + 1) false, 0, perslab cls, cls⟩, heap)

def memPoolSlabMalloc (cls : Nat) : Option Nat × MemPool :=
  match memPoolSlabFind pool.slabs cls with
  | some slab =>
    let done := memSlabMalloc slab
    (done.1, ⟨replaceSlab pool.slabs done.2, pool.heap⟩)
  | none =>
    match memPoolSlabNew libc pool cls with
    | (none, heap) => (none, ⟨pool.slabs, heap⟩)
    | (some slab, heap) =>
      let done := memSlabMalloc slab
      (done.1, ⟨done.2 :: pool.slabs, heap⟩)

def plainMalloc (pool : MemPool) (sz : Int) : Option Nat × MemPool :=
  let done := sysMalloc libc pool.heap (sizeT sz)
  (done.1, ⟨pool.slabs, done.2⟩)

def memMalloc (sz : Int) : Option Nat × MemPool :=
  if sz > maxChunk then plainMalloc libc pool sz
  else
    match memPoolGetClass sz with
    | none => plainMalloc libc pool sz
    | some cls =>
      match memPoolSlabMalloc libc pool cls with
      | (none, pool) => plainMalloc libc pool sz
      | (some ptr, pool) => (some ptr, pool)

def onlySlab (slabs : List MemSlab) (slab : MemSlab) : Bool := (slabs.filter (·.cls = slab.cls)).map (·.self) = [slab.self]

def memPoolSlabUninit (heap : SysHeap) (slab : MemSlab) : SysHeap :=
  sysFree libc (sysFree libc (sysFree libc heap slab.buf) slab.superAt) slab.self

def memPoolSlabFree (self ptr : Nat) : MemPool :=
  match pool.slabs.find? (·.self = self) with
  | none => pool
  | some slab =>
    let released := memSlabRelease slab ptr
    let slabs := replaceSlab pool.slabs released
    if released.left = perslab released.cls ∧ onlySlab slabs released = false then
      ⟨slabs.filter (·.self ≠ self), memPoolSlabUninit libc pool.heap released⟩
    else ⟨slabs, pool.heap⟩

def memFree (ptr : Nat) : MemPool :=
  match memPoolFindPtr pool.slabs ptr with
  | some slab => memPoolSlabFree libc pool slab.self ptr
  | none => ⟨pool.slabs, sysFree libc pool.heap ptr⟩

def memRealloc (ptr : Nat) (sz : Int) : Option Nat × MemPool :=
  match memPoolFindPtr pool.slabs ptr with
  | some slab =>
    if sz ≤ slab.cls then (some ptr, pool)
    else
      match memMalloc libc pool sz with
      | (none, pool) => (none, pool)
      | (some new, pool) =>
        (some new, memPoolSlabFree libc ⟨pool.slabs, { pool.heap with mem := copied pool.heap.mem new ptr slab.cls }⟩
          slab.self ptr)
  | none =>
    let done := sysRealloc libc pool.heap ptr (sizeT sz)
    (done.1, ⟨pool.slabs, done.2⟩)

end Pool

theorem perslab_fits (cls : Nat) : perslab cls * cls ≤ blockSize := Nat.div_mul_le_self _ _

theorem classes_sound (cls : Nat) (there : cls ∈ classes) : 0 < cls ∧ 0 < perslab cls ∧ perslab cls * cls = blockSize := by
  have every : ∀ cls ∈ classes, 0 < cls ∧ 0 < perslab cls ∧ perslab cls * cls = blockSize := by decide
  exact every cls there

theorem block_place (buf cls i : Nat) (positive : 0 < cls) : (buf + i * cls - buf) / cls = i := by
  rw [Nat.add_sub_cancel_left, Nat.mul_div_cancel _ positive]

structure SlabOk (slab : MemSlab) : Prop where
  known : slab.cls ∈ classes
  length : slab.super.length = perslab slab.cls + 1
  below : slab.cur < perslab slab.cls
  counted : slab.left = (slab.super.take (perslab slab.cls)).count false

section Slab

variable {slab : MemSlab} (ok : SlabOk slab)

include ok

theorem SlabOk.free_or_used (i : Nat) (below : i < perslab slab.cls) :
    slab.super[i]? = some false ∨ slab.super[i]? = some true := by
  have inside : i < slab.super.length := by
    rw [ok.length]
    omega
  rw [List.getElem?_eq_getElem inside]
  cases slab.super[i] with
  | false => exact .inl rfl
  | true => exact .inr rfl

theorem SlabOk.left_pos : 0 < slab.left ↔ ∃ i < perslab slab.cls, blockFree slab i = true := by
  rw [ok.counted, List.count_pos_iff, List.mem_iff_getElem?]
  constructor
  · rintro ⟨i, entry⟩
    rw [List.getElem?_take] at entry
    split at entry
    · rename_i below
      exact ⟨i, below, decide_eq_true entry⟩
    · cases entry
  · rintro ⟨i, below, free⟩
    exact ⟨i, by rw [List.getElem?_take, if_pos below]; exact of_decide_eq_true free⟩

theorem SlabOk.loop_finds (fuel steps : Nat) (started : 0 < steps) (enough : perslab slab.cls - steps < fuel)
    (around : steps ≤ perslab slab.cls) :
    match getBlockLoop slab slab.cur fuel ((slab.cur + steps) % perslab slab.cls) with
    | some i => i < perslab slab.cls ∧ blockFree slab i = true
    | none => ∀ more, steps ≤ more → more < perslab slab.cls →
        blockFree slab ((slab.cur + more) % perslab slab.cls) = false := by
  induction fuel generalizing steps with
  | zero => omega
  | succ fuel ih =>
    have below := ok.below
    rw [getBlockLoop]
    by_cases whole : steps = perslab slab.cls
    · have back : slab.cur = (slab.cur + steps) % perslab slab.cls := by
        rw [whole, Nat.add_mod_right, Nat.mod_eq_of_lt below]
      rw [if_pos back]
      intro more far short
      omega
    · have apart : slab.cur ≠ (slab.cur + steps) % perslab slab.cls := by
        by_cases wraps : slab.cur + steps < perslab slab.cls
        · rw [Nat.mod_eq_of_lt wraps]
          omega
        · rw [Nat.mod_eq_sub_mod (by omega), Nat.mod_eq_of_lt (by omega)]
          omega
      rw [if_neg apart]
      by_cases free : blockFree slab ((slab.cur + steps) % perslab slab.cls) = true
      · rw [if_pos free]
        exact ⟨Nat.mod_lt _ (by omega), free⟩
      · rw [if_neg free, Nat.mod_add_mod, Nat.add_assoc]
        have rest := ih (steps + 1) (Nat.succ_pos _) (by omega) (by omega)
        cases found : getBlockLoop slab _ fuel _ with
        | some i => rwa [found] at rest
        | none =>
          rw [found] at rest
          intro more far short
          by_cases here : more = steps
          · rw [here]
            exact Bool.eq_false_iff.mpr free
          · exact rest more (by omega) short

theorem SlabOk.get_block : match memSlabGetBlock slab with
    | some i => i < perslab slab.cls ∧ blockFree slab i = true
    | none => ∀ i < perslab slab.cls, blockFree slab i = false := by
  have below := ok.below
  rw [memSlabGetBlock]
  by_cases here : blockFree slab slab.cur = true
  · rw [if_pos here]
    exact ⟨below, here⟩
  · rw [if_neg here]
    have around := ok.loop_finds (perslab slab.cls) 1 Nat.one_pos (by omega) (by omega)
    cases found : getBlockLoop slab _ _ _ with
    | some i => rwa [found] at around
    | none =>
      rw [found] at around
      intro i short
      by_cases same : i = slab.cur
      · rw [same]
        exact Bool.eq_false_iff.mpr here
      · by_cases ahead : slab.cur < i
        · have there := around (i - slab.cur) (by omega) (by omega)
          rwa [show slab.cur + (i - slab.cur) = i by omega, Nat.mod_eq_of_lt short] at there
        · have there := around (i + perslab slab.cls - slab.cur) (by omega) (by omega)
          rwa [show slab.cur + (i + perslab _ - slab.cur) = i + perslab slab.cls by omega, Nat.add_mod_right,
            Nat.mod_eq_of_lt short] at there

theorem SlabOk.get_block_iff : (memSlabGetBlock slab).isSome = true ↔ 0 < slab.left := by
  have found := ok.get_block
  rw [ok.left_pos]
  cases block : memSlabGetBlock slab with
  | some i =>
    rw [block] at found
    exact ⟨fun _ => ⟨i, found⟩, fun _ => rfl⟩
  | none =>
    rw [block] at found
    constructor
    · intro impossible
      cases impossible
    · rintro ⟨i, below, free⟩
      rw [found i below] at free
      cases free

theorem SlabOk.count_set (i : Nat) (below : i < perslab slab.cls) (used : Bool) :
    ((slab.super.set i used).take (perslab slab.cls)).count false =
      slab.left - (if slab.super[i]? = some false then 1 else 0) + (if used = false then 1 else 0) := by
  have inside : i < (slab.super.take (perslab slab.cls)).length := by
    rw [List.length_take, ok.length]
    omega
  have whole : i < slab.super.length := by
    rw [ok.length]
    omega
  rw [List.take_set, List.count_set inside, ← ok.counted, List.getElem_take, List.getElem?_eq_getElem whole]
  cases slab.super[i] <;> cases used <;> rfl

theorem SlabOk.malloc (room : 0 < slab.left) : ∃ i < perslab slab.cls, slab.super[i]? = some false ∧
      (memSlabMalloc slab).1 = some (slab.buf + i * slab.cls) ∧
      (memSlabMalloc slab).2 = { slab with super := slab.super.set i true, cur := (i + 1) % perslab slab.cls, left := slab.left - 1 } ∧
      SlabOk (memSlabMalloc slab).2 := by
  have found := ok.get_block
  have block := ok.get_block_iff.mpr room
  obtain ⟨i, got⟩ := Option.isSome_iff_exists.mp block
  rw [got] at found
  have free : slab.super[i]? = some _ := of_decide_eq_true found.2
  have same : memSlabMalloc slab = (some (slab.buf + i * slab.cls),
      { slab with super := slab.super.set i true, cur := (i + 1) % perslab slab.cls, left := slab.left - 1 }) := by
    rw [memSlabMalloc, if_neg (by omega), got]
  rw [same]
  refine ⟨i, found.1, free, rfl, rfl, ok.known, ?_, ?_, ?_⟩
  · rw [List.length_set]
    exact ok.length
  · exact Nat.mod_lt _ (classes_sound _ ok.known).2.1
  · have count := ok.count_set i found.1 true
    rw [if_pos free, if_neg (by decide)] at count
    exact count.symm

theorem SlabOk.release (i : Nat) (below : i < perslab slab.cls) (used : slab.super[i]? = some true) :
    ∃ cur, memSlabRelease slab (slab.buf + i * slab.cls) =
        { slab with super := slab.super.set i false, left := slab.left + 1, cur := cur } ∧
      SlabOk (memSlabRelease slab (slab.buf + i * slab.cls)) := by
  have positive := (classes_sound _ ok.known).1
  have same : memSlabRelease slab (slab.buf + i * slab.cls) =
      { slab with super := slab.super.set i false, left := slab.left + 1,
                  cur := if (slab.super.set i false)[slab.cur]? = some true then i else slab.cur } := by
    rw [memSlabRelease]
    simp only [block_place _ _ i positive, if_pos below]
  rw [same]
  refine ⟨_, rfl, ok.known, ?_, ?_, ?_⟩
  · rw [List.length_set]
    exact ok.length
  · split
    · exact below
    · exact ok.below
  · have count := ok.count_set i below false
    rw [used, if_neg (by decide), if_pos rfl] at count
    exact count.symm

theorem SlabOk.full_iff : slab.left = perslab slab.cls ↔ ∀ i < perslab slab.cls, slab.super[i]? = some false := by
  have size : (slab.super.take (perslab slab.cls)).length = perslab slab.cls := by
    rw [List.length_take, ok.length]
    omega
  rw [ok.counted]
  nth_rewrite 2 [← size]
  rw [List.count_eq_length]
  constructor
  · intro every i below
    have inside : i < (slab.super.take (perslab slab.cls)).length := by omega
    have entry := every _ (List.getElem_mem inside)
    rw [List.getElem_take] at entry
    rw [List.getElem?_eq_getElem (by rw [ok.length]; omega), ← entry]
  · intro every entry there
    obtain ⟨i, found⟩ := List.mem_iff_getElem?.mp there
    rw [List.getElem?_take] at found
    split at found
    · rename_i below
      rw [every i below] at found
      exact Option.some.inj found
    · cases found

end Slab

theorem slab_ok_new (self buf superAt cls : Nat) (known : cls ∈ classes) :
    SlabOk ⟨self, buf, superAt, List.replicate (perslab cls + 1) false, 0, perslab cls, cls⟩ where
  known := known
  length := List.length_replicate
  below := (classes_sound cls known).2.1
  counted := by
    rw [List.take_replicate, List.count_replicate, if_pos (by rfl)]
    exact (Nat.min_eq_left (Nat.le_succ _)).symm

end Codec.Ems
