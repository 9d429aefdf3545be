import Codec.Ems.MemSound

set_option autoImplicit false

namespace Codec.Ems

open Codec.Lib

section Free

variable {libc : LibC} {pool : MemPool} (ok : PoolOk pool)

include ok

theorem PoolOk.only_slab (slab next : MemSlab) (there : slab ∈ pool.slabs) (same : SamePlace slab next) (good : SlabOk next) :
    onlySlab (replaceSlab pool.slabs next) next = false ↔ ∃ other ∈ pool.slabs, other ≠ slab ∧ other.cls = slab.cls := by
  have after := ok.replace slab next there same good pool.heap.mem pool.heap.calls
  have mine : next ∈ (replaceSlab _ next).filter (·.cls = next.cls) :=
    List.mem_filter.mpr ⟨(ok.replace_mem slab next there same next).mpr (.inl rfl), decide_eq_true rfl⟩
  constructor
  · intro several
    by_contra alone
    have every : ∀ other ∈ (replaceSlab pool.slabs next).filter (·.cls = next.cls), other = next := by
      intro other listed
      obtain ⟨inside, named⟩ := List.mem_filter.mp listed
      rcases (ok.replace_mem slab next there same _).mp inside with new | ⟨old, differ⟩
      · exact new
      · exact absurd ⟨other, old, differ, (of_decide_eq_true named).trans same.2.2.2⟩ alone
    have apart : ((replaceSlab _ next).filter (·.cls = next.cls)).Pairwise _ := List.Pairwise.filter _ after.apart
    rw [onlySlab] at several
    generalize (replaceSlab _ next).filter _ = listed at *
    match listed with
    | [] => cases mine
    | [one] =>
      rw [every one List.mem_cons_self] at several
      exact absurd several (by simp)
    | one :: other :: rest =>
      have differ := (List.pairwise_cons.mp apart).1 _ List.mem_cons_self
      rw [every one List.mem_cons_self, every _ (List.mem_cons_of_mem _ List.mem_cons_self)] at differ
      exact differ _ (self_region next) _ (self_region next) rfl
  · rintro ⟨other, listed, differ, named⟩
    rw [onlySlab, decide_eq_false_iff_not]
    intro single
    have inside : other ∈ (replaceSlab _ next).filter (·.cls = next.cls) :=
      List.mem_filter.mpr ⟨(ok.replace_mem slab next there same _).mpr (.inr ⟨listed, differ⟩),
        decide_eq_true (named.trans same.2.2.2.symm)⟩
    have named := List.mem_map_of_mem (f := MemSlab.self) inside
    rw [single, List.mem_singleton, same.1] at named
    exact differ (ok.same_self _ slab listed there named)

theorem PoolOk.find_self (slab : MemSlab) (there : slab ∈ pool.slabs) : pool.slabs.find? (·.self = slab.self) = some slab := by
  cases found : pool.slabs.find? _ with
  | none => exact absurd (List.find?_eq_none.mp found slab there) (by simp)
  | some other =>
    have named := List.find?_some found
    rw [decide_eq_true_eq] at named
    exact congrArg some (ok.same_self _ slab (List.mem_of_find?_eq_some found) there named)

variable (libc) in
theorem PoolOk.slab_free_cases (slab : MemSlab) (i ptr : Nat) (block : BlockAt pool slab i ptr) :
    SamePlace slab (memSlabRelease slab ptr) ∧ SlabOk (memSlabRelease slab ptr) ∧
      (memSlabRelease slab ptr).super = slab.super.set i false ∧
      ((((memSlabRelease slab ptr).left = perslab slab.cls ∧ ∃ other ∈ pool.slabs, other ≠ slab ∧ other.cls = slab.cls) ∧
        memPoolSlabFree libc pool slab.self ptr =
          ⟨pool.slabs.filter (·.self ≠ slab.self), memPoolSlabUninit libc pool.heap (memSlabRelease slab ptr)⟩) ∨
      (¬ ((memSlabRelease slab ptr).left = perslab slab.cls ∧ ∃ other ∈ pool.slabs, other ≠ slab ∧ other.cls = slab.cls) ∧
        memPoolSlabFree libc pool slab.self ptr = ⟨replaceSlab pool.slabs (memSlabRelease slab ptr), pool.heap⟩)) := by
  obtain ⟨there, below, used, place⟩ := block
  obtain ⟨cur, released, good⟩ := (ok.slabs slab there).release i below used
  rw [← place] at released good
  have same : SamePlace slab (memSlabRelease slab ptr) := by
    rw [released]
    exact ⟨rfl, rfl, rfl, rfl⟩
  have only := ok.only_slab slab _ there same good
  refine ⟨same, good, by rw [released], ?_⟩
  have others : (replaceSlab pool.slabs (memSlabRelease slab ptr)).filter (·.self ≠ slab.self) =
      pool.slabs.filter (·.self ≠ slab.self) := by
    rw [replaceSlab, List.filter_map]
    have test : (fun other : MemSlab => decide (other.self ≠ slab.self)) ∘
        (fun other => if other.self = (memSlabRelease slab ptr).self then memSlabRelease slab ptr else other) =
          fun other => decide (other.self ≠ slab.self) := by
      funext other
      dsimp only [Function.comp]
      rw [same.1]
      split
      · rename_i equal
        rw [same.1, equal]
      · rfl
    rw [test]
    refine (List.map_congr_left fun other listed => if_neg ?_).trans (List.map_id _)
    rw [same.1]
    exact of_decide_eq_true (List.mem_filter.mp listed).2
  rw [memPoolSlabFree, ok.find_self slab there]
  dsimp only
  rw [same.2.2.2, others]
  by_cases gone : (memSlabRelease slab ptr).left = perslab slab.cls ∧ ∃ other ∈ pool.slabs, other ≠ slab ∧ other.cls = slab.cls
  · exact Or.inl ⟨gone, if_pos ⟨gone.1, only.mpr gone.2⟩⟩
  · exact Or.inr ⟨gone, if_neg fun both => gone ⟨both.1, only.mp both.2⟩⟩

variable (libc) in
theorem PoolOk.uninit (slab next : MemSlab) (same : SamePlace slab next) :
    HeapOk (memPoolSlabUninit libc pool.heap next).regions ∧ Shrinks pool.heap (memPoolSlabUninit libc pool.heap next) ∧
      ∀ region ∈ pool.heap.regions, (∀ own ∈ slabRegions slab, region.start ≠ own.start) →
        region ∈ (memPoolSlabUninit libc pool.heap next).regions := by
  obtain ⟨first, shrinks⟩ := free_spec libc ok.heap next.buf
  obtain ⟨second, more⟩ := free_spec libc first next.superAt
  obtain ⟨third, most⟩ := free_spec libc second next.self
  refine ⟨third, (shrinks.trans more).trans most, ?_⟩
  intro region listed clear
  rw [← same_place_regions slab next same] at clear
  simp only [slabRegions, List.forall_mem_cons, List.not_mem_nil, false_implies, implies_true, and_true] at clear
  exact (others_mem _ _ _).mpr ⟨(others_mem _ _ _).mpr ⟨(others_mem _ _ _).mpr ⟨listed, clear.1⟩, clear.2.1⟩, clear.2.2⟩

variable (libc) in
theorem PoolOk.slab_free (slab : MemSlab) (i ptr : Nat) (block : BlockAt pool slab i ptr) :
    PoolOk (memPoolSlabFree libc pool slab.self ptr) ∧ Shrinks pool.heap (memPoolSlabFree libc pool slab.self ptr).heap ∧
      ∀ other count, Served pool other count → other ≠ ptr → Served (memPoolSlabFree libc pool slab.self ptr) other count := by
  obtain ⟨same, good, super, ⟨gone, result⟩ | ⟨stays, result⟩⟩ := ok.slab_free_cases libc slab i ptr block
  · obtain ⟨heap, shrinks, kept⟩ := ok.uninit libc slab _ same
    rw [result]
    have listed (other : MemSlab) : other ∈ pool.slabs.filter (·.self ≠ slab.self) ↔ other ∈ pool.slabs ∧ other ≠ slab := by
      rw [List.mem_filter, decide_eq_true_eq]
      refine and_congr_right fun inside => not_congr ⟨ok.same_self other slab inside block.1, congrArg MemSlab.self⟩
    have clear (other : MemSlab) (inside : other ∈ pool.slabs) (differ : other ≠ slab) (region : Region)
        (own : region ∈ slabRegions other) : region ∈ (memPoolSlabUninit libc pool.heap (memSlabRelease slab ptr)).regions :=
      kept region (ok.owned other inside region own) (ok.apart.forall inside block.1 differ region own)
    refine ⟨⟨heap, ?_, ?_, List.Pairwise.filter _ ok.apart⟩, shrinks, ?_⟩
    · exact fun other inside => ok.slabs other ((listed other).mp inside).1
    · exact fun other inside region own => clear other ((listed other).mp inside).1 ((listed other).mp inside).2 region own
    · rintro other count (⟨old, j, taken, fits⟩ | ⟨region, given, fits⟩) apart
      · refine Or.inl ⟨old, j, ⟨(listed old).mpr ⟨taken.1, ?_⟩, taken.2⟩, fits⟩
        intro equal
        rw [equal] at taken
        have full : (memSlabRelease slab ptr).left = perslab (memSlabRelease slab ptr).cls := by rw [same.2.2.2]; exact gone.1
        have free := good.full_iff.mp full j (by rw [same.2.2.2]; exact taken.2.1)
        have differ : i ≠ j := fun index => apart (by rw [taken.2.2.2, block.2.2.2, index])
        rw [super, List.getElem?_set_ne differ, taken.2.2.1] at free
        cases free
      · refine Or.inr ⟨region, ⟨kept region given.1 fun own inside => ?_, given.2.1, ?_⟩, fits⟩
        · rw [given.2.1]
          exact (given.2.2 slab block.1 own inside).symm
        · exact fun old inside => given.2.2 old ((listed old).mp inside).1
  · rw [result]
    have after := ok.replace slab _ block.1 same good pool.heap.mem pool.heap.calls
    refine ⟨after, ⟨fun _ there => there, fun _ _ _ _ => rfl⟩, ?_⟩
    rintro other count (⟨old, j, taken, fits⟩ | ⟨region, given, fits⟩) apart
    · by_cases equal : old = slab
      · rw [equal] at taken fits
        have differ : i ≠ j := fun index => apart (by rw [taken.2.2.2, block.2.2.2, index])
        refine Or.inl ⟨memSlabRelease slab ptr, j, ⟨(ok.replace_mem slab _ block.1 same _).mpr (Or.inl rfl), ?_, ?_, ?_⟩, ?_⟩
        · rw [same.2.2.2]
          exact taken.2.1
        · rw [super, List.getElem?_set_ne differ]
          exact taken.2.2.1
        · rw [same.2.1, same.2.2.2]
          exact taken.2.2.2
        · rwa [same.2.2.2]
      · exact Or.inl ⟨old, j, ⟨(ok.replace_mem slab _ block.1 same _).mpr (Or.inr ⟨taken.1, equal⟩), taken.2⟩, fits⟩
    · refine Or.inr ⟨region, ⟨given.1, given.2.1, ?_⟩, fits⟩
      intro listed member own region
      rcases (ok.replace_mem slab _ block.1 same listed).mp member with new | old
      · rw [new, same_place_regions slab _ same] at region
        exact given.2.2 slab block.1 own region
      · exact given.2.2 listed old.1 own region

theorem PoolOk.region_free (region : Region) (ptr : Nat) (given : RegionAt pool region ptr) :
    PoolOk ⟨pool.slabs, sysFree libc pool.heap ptr⟩ ∧
      ∀ other count, Served pool other count → other ≠ ptr → Served ⟨pool.slabs, sysFree libc pool.heap ptr⟩ other count := by
  obtain ⟨heap, shrinks⟩ := free_spec libc ok.heap ptr
  constructor
  · refine ⟨heap, ok.slabs, ?_, ok.apart⟩
    intro slab there own inside
    exact (others_mem _ _ _).mpr ⟨ok.owned slab there own inside, given.2.2 slab there own inside⟩
  · rintro other count (⟨slab, i, block, fits⟩ | ⟨old, taken, fits⟩) differ
    · exact .inl ⟨slab, i, block, fits⟩
    · refine .inr ⟨old, ⟨(others_mem _ _ _).mpr ⟨taken.1, ?_⟩, taken.2⟩, fits⟩
      rw [taken.2.1]
      exact differ

variable (libc) in
theorem PoolOk.free (ptr size : Nat) (served : Served pool ptr size) :
    PoolOk (memFree libc pool ptr) ∧ ∀ other count, Served pool other count → other ≠ ptr → Served (memFree libc pool ptr) other count := by
  have found := ok.found_served ptr size served
  rw [memFree]
  cases place : memPoolFindPtr pool.slabs ptr with
  | some slab =>
    rw [place] at found
    obtain ⟨⟨i, block⟩, _⟩ := found
    obtain ⟨good, _, others⟩ := ok.slab_free libc slab i ptr block
    exact ⟨good, others⟩
  | none =>
    rw [place] at found
    obtain ⟨region, given, _⟩ := found
    exact ok.region_free region ptr given

theorem PoolOk.remembered (mem : Nat → UInt8) : PoolOk ⟨pool.slabs, { pool.heap with mem := mem }⟩ := { ok with }

structure Resized (pool next : MemPool) (ptr old new size : Nat) : Prop where
  served : Served next new size
  others : ∀ other count, Served pool other count → other ≠ ptr → other ≠ new ∧ Served next other count
  bytes : ∀ addr, addr < min old size → next.heap.mem (new + addr) = pool.heap.mem (ptr + addr)

theorem PoolOk.block_moved (slab : MemSlab) (i ptr old : Nat) (block : BlockAt pool slab i ptr) (fits : old ≤ slab.cls)
    (sz : Int) (small : sz < 2 ^ 64) (larger : ¬ sz ≤ slab.cls) (new : Nat) (next : MemPool)
    (made : memMalloc libc pool sz = (some new, next)) :
    PoolOk (memPoolSlabFree libc ⟨next.slabs, { next.heap with mem := copied next.heap.mem new ptr slab.cls }⟩ slab.self ptr) ∧
      Resized pool (memPoolSlabFree libc ⟨next.slabs, { next.heap with mem := copied next.heap.mem new ptr slab.cls }⟩ slab.self ptr)
        ptr old new sz.toNat := by
  obtain ⟨good, grows, gave⟩ := ok.malloc libc sz small
  rw [made] at good grows gave
  have whole : Served pool ptr _ := .inl ⟨slab, i, block, Nat.le_refl _⟩
  obtain ⟨differ, still⟩ := gave.others ptr _ whole
  have holds := ok.block_holds slab i ptr block
  -- The slab is where it was, and its block still in use.
  have stays : ∃ now j, BlockAt next now j ptr ∧ SamePlace slab now := by
    obtain ⟨now, listed, same⟩ := ok.malloc_keeps libc sz slab block.1
    rw [made] at listed
    have inside : Region.Holds ⟨now.buf, blockSize⟩ ptr := by rwa [same.2.1]
    rcases still with ⟨other, j, found, _⟩ | ⟨region, given, _⟩
    · have equal := good.holder _ now found.1 listed ptr (good.block_holds _ j ptr found) inside
      exact ⟨now, j, equal ▸ found, same⟩
    · have apart := good.region_outside _ ptr given now listed
      exact absurd inside (Region.apart_holds _ _ apart ptr (good.region_holds _ ptr given))
  obtain ⟨now, j, using_, same⟩ := stays
  have after := good.remembered (copied next.heap.mem new ptr slab.cls)
  rw [← same.1]
  obtain ⟨left, shrinks, others⟩ := after.slab_free libc now j ptr using_
  have got := others new _ gave.served (Ne.symm differ)
  refine ⟨left, got, ?_, ?_⟩
  · intro other count served apart
    obtain ⟨fresh, next⟩ := gave.others _ _ served
    exact ⟨fresh, others _ _ next apart⟩
  · intro addr below
    obtain ⟨region, listed, inside⟩ := left.served_holds new _ got
    have short : addr < slab.cls := by omega
    have here : new ≤ new + addr ∧ new + addr < new + slab.cls := ⟨Nat.le_add_right _ _, by omega⟩
    obtain ⟨region', listed', inside'⟩ := ok.served_holds ptr _ whole
    rw [shrinks.mem _ listed _ (inside addr (by omega))]
    refine (if_pos here).trans ?_
    rw [Nat.add_sub_cancel_left]
    exact grows.mem _ listed' _ (inside' addr short)

theorem PoolOk.region_moved (region : Region) (ptr old : Nat) (given : RegionAt pool region ptr) (fits : old ≤ region.size)
    (sz : Int) (small : sz < 2 ^ 64) : PoolOk ⟨pool.slabs, (sysRealloc libc pool.heap ptr (sizeT sz)).2⟩ ∧
      match (sysRealloc libc pool.heap ptr (sizeT sz)).1 with
      | none => ∀ other count, Served pool other count → (sizeT sz = 0 → other ≠ ptr) →
          Served ⟨pool.slabs, (sysRealloc libc pool.heap ptr (sizeT sz)).2⟩ other count
      | some new => Resized pool ⟨pool.slabs, (sysRealloc libc pool.heap ptr (sizeT sz)).2⟩ ptr old new sz.toNat := by
  obtain ⟨listed, start, clear⟩ := given
  have answer := realloc_spec libc ok.heap _ listed (sizeT sz)
  rw [start] at answer
  have own (slab : MemSlab) (there : slab ∈ pool.slabs) (mine : Region) (inside : mine ∈ slabRegions slab) :
      mine ∈ others _ ptr :=
    (others_mem _ _ _).mpr ⟨ok.owned slab there mine inside, clear slab there mine inside⟩
  cases result : sysRealloc libc _ ptr _ with
  | mk new heap =>
    rw [result] at answer
    cases new with
    | none =>
      obtain ⟨regions, shrinks⟩ := answer
      by_cases none : sizeT sz = 0
      · rw [if_pos none] at regions
        refine ⟨⟨?_, ok.slabs, ?_, ok.apart⟩, ?_⟩
        · rw [regions]
          exact others_ok ok.heap ptr
        · intro slab there mine inside
          rw [regions]
          exact own slab there mine inside
        · rintro other count (⟨slab, i, block, room⟩ | ⟨kept, taken, room⟩) differ
          · exact .inl ⟨slab, i, block, room⟩
          · refine .inr ⟨kept, ⟨?_, taken.2⟩, room⟩
            rw [regions, others_mem, taken.2.1]
            exact ⟨taken.1, differ none⟩
      · rw [if_neg none] at regions
        have grows : Grows _ heap :=
          ⟨fun region there => by rw [regions]; exact there, fun region there => shrinks.mem _ (by rw [regions]; exact there)⟩
        refine ⟨ok.grown heap grows ?_, fun other count served _ => served_grown heap grows _ _ served⟩
        rw [regions]
        exact ok.heap
    | some new =>
      obtain ⟨good, regions, fresh, mem, bytes⟩ := answer
      have kept (other : Region) (inside : other ∈ others pool.heap.regions ptr) : other ∈ heap.regions := by
        rw [regions]
        exact List.mem_cons_of_mem _ (start ▸ inside)
      have after : PoolOk ⟨pool.slabs, heap⟩ :=
        ⟨good, ok.slabs, fun slab there mine inside => kept mine (own slab there mine inside), ok.apart⟩
      have mine : RegionAt ⟨pool.slabs, heap⟩ ⟨new, max (sizeT sz) 1⟩ new := by
        refine ⟨by rw [regions]; exact List.mem_cons_self, rfl, ?_⟩
        intro slab there part inside
        apply fresh part (ok.owned slab there part inside)
        rw [start]
        exact clear slab there part inside
      have room : sz.toNat ≤ max (sizeT sz) 1 := by
        rw [sizeT]
        omega
      have got : Served _ new _ := .inr ⟨_, mine, room⟩
      refine ⟨after, got, ?_, ?_⟩
      · rintro other count (⟨slab, i, block, space⟩ | ⟨second, taken, space⟩) differ
        · refine ⟨fun clash => ?_, .inl ⟨slab, i, block, space⟩⟩
          have holds := ok.block_holds slab i _ block
          rw [clash] at holds
          exact Region.apart_holds _ _ (after.region_outside _ new mine slab block.1) new (after.region_holds _ new mine) holds
        · have apart : second.start ≠ ptr := by
            rw [taken.2.1]
            exact differ
          refine ⟨fun clash => ?_, .inr ⟨second, ⟨kept _ ((others_mem _ _ _).mpr ⟨taken.1, apart⟩), taken.2⟩, space⟩⟩
          exact fresh _ taken.1 (by rw [start]; exact apart) (taken.2.1.trans clash)
      · intro addr below
        have copied := bytes addr (by rw [sizeT]; omega)
        rwa [start] at copied

variable (libc) in
theorem PoolOk.realloc (ptr old : Nat) (served : Served pool ptr old) (sz : Int) (small : sz < 2 ^ 64) :
    PoolOk (memRealloc libc pool ptr sz).2 ∧
      match (memRealloc libc pool ptr sz).1 with
      | none => ∀ other count, Served pool other count → (sizeT sz = 0 → other ≠ ptr) → Served (memRealloc libc pool ptr sz).2 other count
      | some new => Resized pool (memRealloc libc pool ptr sz).2 ptr old new sz.toNat := by
  have found := ok.found_served ptr old served
  rw [memRealloc]
  cases place : memPoolFindPtr pool.slabs ptr with
  | none =>
    rw [place] at found
    obtain ⟨region, given, fits⟩ := found
    exact ok.region_moved region ptr old given fits sz small
  | some slab =>
    rw [place] at found
    obtain ⟨⟨i, block⟩, fits⟩ := found
    dsimp only
    by_cases enough : sz ≤ slab.cls
    · rw [if_pos enough]
      refine ⟨ok, ?_, ?_, fun _ _ => rfl⟩
      · exact Or.inl ⟨slab, i, block, by omega⟩
      · exact fun other count still differ => ⟨differ, still⟩
    · rw [if_neg enough]
      cases made : memMalloc libc pool sz with
      | mk new next =>
        cases new with
        | none =>
          obtain ⟨good, _, answer⟩ := ok.malloc libc sz small
          rw [made] at good answer
          exact ⟨good, fun other count still _ => answer other count still⟩
        | some new => exact ok.block_moved slab i ptr old block fits sz small enough new next made

end Free

end Codec.Ems
