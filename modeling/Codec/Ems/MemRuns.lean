import Codec.Ems.MemFree
import Codec.Lib.Runs

set_option autoImplicit false

namespace Codec.Ems

open Codec.Lib

variable (slabs : List MemSlab) (live : List (Nat × Nat)) (ptr : Nat)

structure MemUse where
  pool : MemPool
  live : List (Nat × Nat)

-- A block is named by its place among the live ones. Between the calls the
-- user stores bytes in its blocks.
inductive MemOp where
  | malloc (sz : Int32)
  | free (place : Nat)
  | realloc (place : Nat) (sz : Int32)
  | store (place offset : Nat) (byte : UInt8)

def without : List (Nat × Nat) := live.filter (·.1 ≠ ptr)

section Use

variable (libc : LibC)

def MemUse.call (use : MemUse) : MemOp → MemUse
  | .malloc sz =>
    match memMalloc libc use.pool sz.toInt with
    | (none, pool) => ⟨pool, use.live⟩
    | (some ptr, pool) => ⟨pool, (ptr, sz.toInt.toNat) :: use.live⟩
  | .free place =>
    match use.live[place]? with
    | none => use
    | some block => ⟨memFree libc use.pool block.1, without use.live block.1⟩
  | .realloc place sz =>
    match use.live[place]? with
    | none => use
    | some block =>
      match memRealloc libc use.pool block.1 sz.toInt with
      | (none, pool) => ⟨pool, if sizeT sz.toInt = 0 then without use.live block.1 else use.live⟩
      | (some new, pool) => ⟨pool, (new, sz.toInt.toNat) :: without use.live block.1⟩
  | .store place offset byte =>
    match use.live[place]? with
    | none => use
    | some block =>
      if offset < block.2 then
        ⟨⟨use.pool.slabs, { use.pool.heap with mem := Function.update use.pool.heap.mem (block.1 + offset) byte }⟩, use.live⟩
      else use

end Use

-- After mem_pool_init: no class has a slab. What is handed out already, the
-- mem_mgmt and its classes among it, is in `heap`.
def MemUse.init (heap : SysHeap) : MemUse := ⟨⟨[], heap⟩, []⟩

structure UseOk (use : MemUse) : Prop where
  pool : PoolOk use.pool
  served : ∀ block ∈ use.live, Served use.pool block.1 block.2
  distinct : (use.live.map Prod.fst).Nodup

theorem use_ok_init (heap : SysHeap) (ok : HeapOk heap.regions) : UseOk (MemUse.init heap) where
  pool := ⟨ok, fun _ there => (nomatch there), fun _ there => (nomatch there), List.Pairwise.nil⟩
  served := fun _ there => nomatch there
  distinct := List.nodup_nil

theorem without_mem (block : Nat × Nat) :
    block ∈ without live ptr ↔ block ∈ live ∧ block.1 ≠ ptr := by
  rw [without, List.mem_filter, decide_eq_true_eq]

theorem without_distinct (distinct : (live.map Prod.fst).Nodup) :
    ((without live ptr).map Prod.fst).Nodup :=
  (List.filter_sublist.map _).nodup distinct

theorem fresh_distinct (ptr size : Nat) (distinct : (live.map Prod.fst).Nodup)
    (fresh : ∀ block ∈ live, block.1 ≠ ptr) : (((ptr, size) :: live).map Prod.fst).Nodup := by
  refine List.nodup_cons.mpr ⟨fun there => ?_, distinct⟩
  obtain ⟨block, listed, same⟩ := List.mem_map.mp there
  exact fresh _ listed same

theorem int_small (sz : Int32) : sz.toInt < 2 ^ 64 := by
  have bound := Int32.toInt_lt sz
  omega

section Calls

variable {libc : LibC} {use : MemUse} (ok : UseOk use)

include ok

theorem UseOk.call (op : MemOp) : UseOk (use.call libc op) := by
  cases op with
  | malloc sz =>
    obtain ⟨good, _, answer⟩ := ok.pool.malloc libc _ (int_small sz)
    rw [MemUse.call]
    cases made : memMalloc libc _ _ with
    | mk ptr pool =>
      rw [made] at good answer
      cases ptr with
      | none => exact ⟨good, fun block there => answer _ _ (ok.served _ there), ok.distinct⟩
      | some ptr =>
        refine ⟨good, ?_, fresh_distinct _ _ _ ok.distinct fun block there => (answer.others _ _ (ok.served _ there)).1⟩
        intro block there
        rcases List.mem_cons.mp there with new | old
        · rw [new]
          exact answer.served
        · exact (answer.others _ _ (ok.served _ old)).2
  | free place =>
    rw [MemUse.call]
    cases found : use.live[place]? with
    | none => exact ok
    | some block =>
      obtain ⟨good, others⟩ := ok.pool.free libc _ _ (ok.served _ (List.mem_of_getElem? found))
      refine ⟨good, ?_, without_distinct _ _ ok.distinct⟩
      intro other there
      obtain ⟨listed, differ⟩ := (without_mem _ _ _).mp there
      exact others _ _ (ok.served _ listed) differ
  | realloc place sz =>
    rw [MemUse.call]
    cases found : use.live[place]? with
    | none => exact ok
    | some block =>
      obtain ⟨good, answer⟩ := ok.pool.realloc libc _ _ (ok.served _ (List.mem_of_getElem? found))
        _ (int_small sz)
      dsimp only
      cases made : memRealloc libc _ _ _ with
      | mk new pool =>
        rw [made] at good answer
        cases new with
        | none =>
          dsimp only at answer ⊢
          split
          · refine ⟨good, ?_, without_distinct _ _ ok.distinct⟩
            intro other there
            obtain ⟨listed, differ⟩ := (without_mem _ _ _).mp there
            exact answer _ _ (ok.served _ listed) fun _ => differ
          · rename_i some
            exact ⟨good, fun other there => answer _ _ (ok.served _ there) fun zero => absurd zero some, ok.distinct⟩
        | some new =>
          have fresh (other : Nat × Nat) (there : other ∈ without use.live block.1) :
              other.1 ≠ new ∧ Served pool other.1 other.2 := by
            obtain ⟨listed, differ⟩ := (without_mem _ _ _).mp there
            exact answer.others _ _ (ok.served _ listed) differ
          refine ⟨good, ?_, fresh_distinct _ _ _ (without_distinct _ _ ok.distinct) fun other there => (fresh _ there).1⟩
          intro other there
          rcases List.mem_cons.mp there with first | later
          · rw [first]
            exact answer.served
          · exact (fresh _ later).2
  | store place offset byte =>
    rw [MemUse.call]
    cases found : use.live[place]? with
    | none => exact ok
    | some block =>
      dsimp only
      split
      · exact ⟨ok.pool.remembered _, ok.served, ok.distinct⟩
      · exact ok

theorem UseOk.run (ops : List MemOp) : UseOk (run (MemUse.call libc) use ops) :=
  run_keeps _ _ _ use ops ok (fun _ op ok _ => ok.call op)
    (all_steps_of_all _ _ _ _ fun _ _ => trivial)

end Calls

def BlockMarked (used : Bool) (ptr : Nat) : Prop :=
  ∃ slab ∈ slabs, ∃ i < perslab slab.cls, slab.super[i]? = some used ∧ ptr = slab.buf + i * slab.cls

instance (slabs : List MemSlab) (used : Bool) (ptr : Nat) : Decidable (BlockMarked slabs used ptr) :=
  inferInstanceAs (Decidable (∃ slab ∈ slabs, ∃ i < perslab slab.cls, _))

abbrev InUse : Prop := BlockMarked slabs true ptr

abbrev Available : Prop := BlockMarked slabs false ptr

def LastOfSpare (slab : MemSlab) (ptr : Nat) : Prop :=
  (∀ i < perslab slab.cls, slab.super[i]? = some true → ptr = slab.buf + i * slab.cls) ∧
    ∃ other ∈ slabs, other ≠ slab ∧ other.cls = slab.cls

section Marks

variable {libc : LibC} {pool : MemPool} (ok : PoolOk pool)

include ok

theorem PoolOk.place_holds (slab : MemSlab) (there : slab ∈ pool.slabs) (i : Nat) (below : i < perslab slab.cls) :
    Region.Holds ⟨slab.buf, blockSize⟩ (slab.buf + i * slab.cls) := by
  have positive := (classes_sound _ (ok.slabs slab there).known).1
  have step : (i + 1) * slab.cls ≤ perslab _ * slab.cls := Nat.mul_le_mul_right _ below
  rw [Nat.add_mul, Nat.one_mul] at step
  have room := perslab_fits slab.cls
  exact ⟨Nat.le_add_right _ _, show slab.buf + i * slab.cls < slab.buf + blockSize by omega⟩

theorem PoolOk.same_place (one other : MemSlab) (here : one ∈ pool.slabs) (there : other ∈ pool.slabs) (i j : Nat)
    (below : i < perslab one.cls) (within : j < perslab other.cls) (same : one.buf + i * one.cls = other.buf + j * other.cls) :
    one = other ∧ i = j := by
  have first := ok.place_holds one here i below
  have second := ok.place_holds _ there j within
  rw [← same] at second
  have equal := ok.holder one _ here there _ first second
  refine ⟨equal, ?_⟩
  have positive := (classes_sound _ (ok.slabs one here).known).1
  rw [← equal] at same
  have place := block_place one.buf _ i positive
  rw [same, block_place _ _ j positive] at place
  exact place.symm

theorem PoolOk.marked (slab next : MemSlab) (there : slab ∈ pool.slabs) (same : SamePlace slab next) (i : Nat)
    (below : i < perslab slab.cls) (now : Bool) (written : next.super = slab.super.set i now) (used : Bool) (ptr : Nat) :
    BlockMarked (replaceSlab pool.slabs next) used ptr ↔
      (ptr ≠ slab.buf + i * slab.cls ∧ BlockMarked pool.slabs used ptr) ∨ (used = now ∧ ptr = slab.buf + i * slab.cls) := by
  have inside : i < slab.super.length := by
    rw [(ok.slabs slab there).length]
    omega
  constructor
  · rintro ⟨other, listed, j, within, entry, place⟩
    rcases (ok.replace_mem slab next there same _).mp listed with new | ⟨old, differ⟩
    · rw [new, written] at entry
      rw [new, same.2.2.2] at within
      rw [new, same.2.1, same.2.2.2] at place
      by_cases index : i = j
      · rw [← index, List.getElem?_set_self inside] at entry
        exact .inr ⟨(Option.some.inj entry).symm, index ▸ place⟩
      · rw [List.getElem?_set_ne index] at entry
        refine .inl ⟨fun clash => index ?_, slab, there, j, within, entry, place⟩
        exact (ok.same_place slab slab there there i j below within (clash.symm.trans place)).2
    · refine .inl ⟨fun clash => differ ?_, other, old, j, within, entry, place⟩
      exact (ok.same_place _ slab old there j i within below (place.symm.trans clash)).1
  · rintro (⟨differ, other, old, j, within, entry, place⟩ | ⟨mark, place⟩)
    · by_cases equal : other = slab
      · rw [equal] at within entry place
        have index : i ≠ j := fun index => differ (index ▸ place)
        refine ⟨next, (ok.replace_mem slab next there same next).mpr (.inl rfl), j, ?_, ?_, ?_⟩
        · rw [same.2.2.2]
          exact within
        · rw [written, List.getElem?_set_ne index]
          exact entry
        · rw [same.2.1, same.2.2.2]
          exact place
      · exact ⟨other, (ok.replace_mem slab next there same _).mpr (.inr ⟨old, equal⟩), j, within, entry, place⟩
    · refine ⟨next, (ok.replace_mem slab next there same next).mpr (.inl rfl), i, ?_, ?_, ?_⟩
      · rw [same.2.2.2]
        exact below
      · rw [written, List.getElem?_set_self inside, mark]
      · rw [same.2.1, same.2.2.2]
        exact place

theorem PoolOk.last_iff (slab : MemSlab) (i ptr : Nat) (block : BlockAt pool slab i ptr) : LastOfSpare pool.slabs slab ptr ↔
      (memSlabRelease slab ptr).left = perslab slab.cls ∧ ∃ other ∈ pool.slabs, other ≠ slab ∧ other.cls = slab.cls := by
  obtain ⟨same, good, super, _⟩ := ok.slab_free_cases bumpLibC slab i ptr block
  have full := good.full_iff
  rw [same.2.2.2, super] at full
  rw [LastOfSpare, full]
  refine and_congr_left fun _ => ?_
  constructor
  · intro only j within
    by_cases index : i = j
    · rw [← index]
      apply List.getElem?_set_self
      rw [(ok.slabs slab block.1).length]
      exact Nat.lt_succ_of_lt block.2.1
    · rw [List.getElem?_set_ne index]
      rcases (ok.slabs slab block.1).free_or_used j within with free | used
      · exact free
      · have place := (only j within used).symm.trans block.2.2.2
        exact absurd (ok.same_place slab slab block.1 block.1 j i within block.2.1 place).2.symm index
  · intro free j within used
    by_cases index : i = j
    · rw [← index]
      exact block.2.2.2
    · have entry := free j within
      rw [List.getElem?_set_ne index, used] at entry
      cases entry

theorem PoolOk.freed (slab : MemSlab) (i ptr : Nat) (block : BlockAt pool slab i ptr) :
    (∀ other, InUse (memFree libc pool ptr).slabs other ↔ InUse pool.slabs other ∧ other ≠ ptr) ∧
      (¬ LastOfSpare pool.slabs slab ptr →
        ∀ other, Available (memFree libc pool ptr).slabs other ↔ Available pool.slabs other ∨ other = ptr) ∧
      (LastOfSpare pool.slabs slab ptr → (memFree libc pool ptr).slabs = pool.slabs.filter (·.self ≠ slab.self)) := by
  have last := ok.last_iff slab i ptr block
  obtain ⟨same, good, super, answer⟩ := ok.slab_free_cases libc slab i ptr block
  have place := block.2.2.2
  rw [memFree, ok.find_block slab i ptr block, last]
  dsimp only
  rcases answer with ⟨gone, result⟩ | ⟨stays, result⟩
  · rw [result]
    refine ⟨fun other => ?_, fun stays => absurd gone stays, fun _ => rfl⟩
    constructor
    · rintro ⟨old, listed, j, within, entry, spot⟩
      obtain ⟨inside, differ⟩ := List.mem_filter.mp listed
      refine ⟨⟨old, inside, j, within, entry, spot⟩, fun clash => ?_⟩
      rw [spot, place] at clash
      have equal := (ok.same_place old slab inside block.1 j i within block.2.1 clash).1
      rw [equal] at differ
      exact of_decide_eq_true differ rfl
    · rintro ⟨⟨old, inside, j, within, entry, spot⟩, differ⟩
      refine ⟨old, List.mem_filter.mpr ⟨inside, decide_eq_true fun equal => differ ?_⟩, j, within, entry, spot⟩
      have one := ok.same_self old slab inside block.1 equal
      rw [one] at within entry spot
      rw [spot, (last.mpr gone).1 j within entry]
  · rw [result]
    have marked := ok.marked slab _ block.1 same i block.2.1 _ super
    refine ⟨fun other => ?_, fun _ other => ?_, fun gone => absurd gone stays⟩
    · rw [InUse, marked true _, ← place]
      simp [and_comm]
    · rw [Available, marked _ _, ← place]
      by_cases here : other = ptr
      · simp [here]
      · simp [here]

end Marks

structure SlabsSound (libc : LibC) (use : MemUse) : Prop where
  inside : ∀ block ∈ use.live, ∀ slab, memPoolFindPtr use.pool.slabs block.1 = some slab →
    slab ∈ use.pool.slabs ∧ slab.buf ≤ block.1 ∧ block.1 + block.2 ≤ slab.buf + blockSize
  disjoint : use.live.Pairwise fun one other => one.1 + one.2 ≤ other.1 ∨ other.1 + other.2 ≤ one.1
  counted : ∀ slab ∈ use.pool.slabs, slab.left = (slab.super.take (perslab slab.cls)).count false
  found : ∀ slab ∈ use.pool.slabs, (memSlabGetBlock slab).isSome = true ↔ 0 < slab.left
  freed : ∀ block ∈ use.live, ∀ slab, memPoolFindPtr use.pool.slabs block.1 = some slab →
    (∀ other, InUse (memFree libc use.pool block.1).slabs other ↔ InUse use.pool.slabs other ∧ other ≠ block.1) ∧
      (¬ LastOfSpare use.pool.slabs slab block.1 →
        ∀ other, Available (memFree libc use.pool block.1).slabs other ↔ Available use.pool.slabs other ∨ other = block.1) ∧
      (LastOfSpare use.pool.slabs slab block.1 →
        (memFree libc use.pool block.1).slabs = use.pool.slabs.filter (·.self ≠ slab.self))
  resized : ∀ block ∈ use.live, ∀ sz : Int32, ∀ new, (memRealloc libc use.pool block.1 sz.toInt).1 = some new →
    ∀ addr, addr < min block.2 sz.toInt.toNat →
      (memRealloc libc use.pool block.1 sz.toInt).2.heap.mem (new + addr) = use.pool.heap.mem (block.1 + addr)

theorem UseOk.sound {libc : LibC} {use : MemUse} (ok : UseOk use) : SlabsSound libc use := by
  have placed (block : Nat × Nat) (there : block ∈ use.live) (slab : MemSlab)
      (found : memPoolFindPtr use.pool.slabs block.1 = some slab) : (∃ i, BlockAt use.pool slab i block.1) ∧ block.2 ≤ slab.cls := by
    have served := ok.pool.found_served _ _ (ok.served _ there)
    rwa [found] at served
  constructor
  · intro block there slab found
    obtain ⟨⟨i, taken⟩, fits⟩ := placed _ there slab found
    obtain ⟨low, high⟩ := block_inside slab i _ taken
    exact ⟨taken.1, low, by omega⟩
  · have distinct : use.live.Pairwise fun one other => one.1 ≠ other.1 := List.pairwise_map.mp ok.distinct
    refine List.Pairwise.imp_of_mem ?_ distinct
    intro one other here there differ
    exact ok.pool.served_apart _ _ _ _ (ok.served one here) (ok.served _ there) differ
  · exact fun slab there => (ok.pool.slabs slab there).counted
  · exact fun slab there => (ok.pool.slabs slab there).get_block_iff
  · intro block there slab found
    obtain ⟨⟨i, taken⟩, _⟩ := placed _ there slab found
    exact ok.pool.freed slab i _ taken
  · intro block there sz new answer
    obtain ⟨_, resized⟩ := ok.pool.realloc libc _ _ (ok.served _ there) _ (int_small sz)
    rw [answer] at resized
    exact resized.bytes

theorem slab_allocator (libc : LibC) (heap : SysHeap) (ok : HeapOk heap.regions) (ops : List MemOp) :
    SlabsSound libc (run (MemUse.call libc) (MemUse.init heap) ops) :=
  ((use_ok_init heap ok).run ops).sound

def freshHeap : SysHeap := ⟨[], fun _ => 0, 0⟩

theorem fresh_heap_ok : HeapOk freshHeap.regions := ⟨List.Pairwise.nil, fun _ there => (nomatch there), fun _ there => nomatch there⟩

theorem slab_allocator_sample : SlabsSound bumpLibC (run (MemUse.call bumpLibC) (MemUse.init freshHeap)
      [.malloc 16, .malloc 100, .store 0 3 7, .realloc 0 5000, .free 1]) :=
  slab_allocator _ _ fresh_heap_ok _

-- 33 blocks of 2048 bytes take two slabs; the only block of the second one is
-- given back, and all its other blocks go with it.
theorem spare_slab_deleted :
    ¬ ∀ (libc : LibC) (heap : SysHeap), HeapOk heap.regions → ∀ (ops : List MemOp) (place : Nat) (block : Nat × Nat) (slab : MemSlab),
      (run (MemUse.call libc) (MemUse.init heap) ops).live[place]? = some block →
        memPoolFindPtr (run (MemUse.call libc) (MemUse.init heap) ops).pool.slabs block.1 = some slab →
          ∀ other, Available (memFree libc (run (MemUse.call libc) (MemUse.init heap) ops).pool block.1).slabs other ↔
            Available (run (MemUse.call libc) (MemUse.init heap) ops).pool.slabs other ∨ other = block.1 := by
  intro claim
  have all := claim bumpLibC _ fresh_heap_ok (List.replicate 33 (.malloc 2048)) 0 (65702, 2048)
    ⟨65637, 65702, 131239, true :: List.replicate 32 false, 1, 31, 2048⟩
  have live : (run (MemUse.call bumpLibC) (MemUse.init freshHeap) (List.replicate 33 (.malloc 2048))).live[0]? = some (65702, 2048) := by
    decide +kernel
  have found : memPoolFindPtr (run (MemUse.call bumpLibC) (MemUse.init freshHeap) (List.replicate 33 (.malloc 2048))).pool.slabs 65702 =
      some ⟨65637, 65702, 131239, true :: List.replicate 32 false, 1, 31, 2048⟩ := by decide +kernel
  have before : Available (run (MemUse.call bumpLibC) (MemUse.init freshHeap) (List.replicate 33 (.malloc 2048))).pool.slabs 67750 := by
    decide +kernel
  have after : ¬ Available (memFree bumpLibC
      (run (MemUse.call bumpLibC) (MemUse.init freshHeap) (List.replicate 33 (.malloc 2048))).pool 65702).slabs 67750 := by
    decide +kernel
  exact after ((all live found _).mpr (.inl before))

end Codec.Ems
