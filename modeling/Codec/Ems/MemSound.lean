import Codec.Ems.MemPool

set_option autoImplicit false

namespace Codec.Ems

open Codec.Lib List

variable (slab : MemSlab)

def slabRegions : List Region :=
  [⟨slab.buf, blockSize⟩, ⟨slab.superAt, perslab slab.cls + 1⟩, ⟨slab.self, sizeofSlab⟩]

def SlabsApart (one other : MemSlab) : Prop := ∀ mine ∈ slabRegions one, ∀ theirs ∈ slabRegions other, mine.start ≠ theirs.start

instance slabsApartSymm : Std.Symm SlabsApart :=
  ⟨fun _ _ apart mine here theirs there same => apart theirs there mine here same.symm⟩

structure PoolOk (pool : MemPool) : Prop where
  heap : HeapOk pool.heap.regions
  slabs : ∀ slab ∈ pool.slabs, SlabOk slab
  owned : ∀ slab ∈ pool.slabs, ∀ region ∈ slabRegions slab, region ∈ pool.heap.regions
  apart : pool.slabs.Pairwise SlabsApart

def BlockAt (pool : MemPool) (slab : MemSlab) (i ptr : Nat) : Prop :=
  slab ∈ pool.slabs ∧ i < perslab slab.cls ∧ slab.super[i]? = some true ∧ ptr = slab.buf + i * slab.cls

def RegionAt (pool : MemPool) (region : Region) (ptr : Nat) : Prop :=
  region ∈ pool.heap.regions ∧ region.start = ptr ∧ ∀ slab ∈ pool.slabs, ∀ own ∈ slabRegions slab, own.start ≠ ptr

def Served (pool : MemPool) (ptr size : Nat) : Prop :=
  (∃ slab i, BlockAt pool slab i ptr ∧ size ≤ slab.cls) ∨ ∃ region, RegionAt pool region ptr ∧ size ≤ region.size

theorem buf_region : (⟨slab.buf, blockSize⟩ : Region) ∈ slabRegions slab := mem_cons_self

theorem self_region : (⟨slab.self, sizeofSlab⟩ : Region) ∈ slabRegions slab := by simp [slabRegions]

section Pool

variable {pool : MemPool} (ok : PoolOk pool)

theorem block_inside (slab : MemSlab) (i ptr : Nat) (block : BlockAt pool slab i ptr) :
    slab.buf ≤ ptr ∧ ptr + slab.cls ≤ slab.buf + blockSize := by
  obtain ⟨there, below, _, place⟩ := block
  have room := perslab_fits slab.cls
  have next : (i + 1) * slab.cls ≤ perslab _ * slab.cls := Nat.mul_le_mul_right _ below
  rw [Nat.add_mul, Nat.one_mul] at next
  omega

include ok

theorem PoolOk.same_slab (one other : MemSlab) (here : one ∈ pool.slabs) (there : other ∈ pool.slabs) (mine theirs : Region)
    (first : mine ∈ slabRegions one) (second : theirs ∈ slabRegions other) (same : mine.start = theirs.start) : one = other := by
  by_contra differ
  exact ok.apart.forall here there differ mine first _ second same

theorem PoolOk.same_self (one other : MemSlab) (here : one ∈ pool.slabs) (there : other ∈ pool.slabs)
    (same : one.self = other.self) : one = other :=
  ok.same_slab one _ here there _ _ (self_region one) (self_region _) same

theorem PoolOk.block_holds (slab : MemSlab) (i ptr : Nat) (block : BlockAt pool slab i ptr) :
    Region.Holds ⟨slab.buf, blockSize⟩ ptr := by
  obtain ⟨low, high⟩ := block_inside slab i ptr block
  have positive := (classes_sound _ (ok.slabs slab block.1).known).1
  exact ⟨low, show ptr < slab.buf + blockSize by omega⟩

theorem PoolOk.holder (slab other : MemSlab) (here : slab ∈ pool.slabs) (there : other ∈ pool.slabs) (addr : Nat)
    (first : Region.Holds ⟨slab.buf, blockSize⟩ addr) (second : Region.Holds ⟨other.buf, blockSize⟩ addr) : slab = other := by
  by_contra differ
  have starts := ok.apart.forall here there differ _ (buf_region slab) _ (buf_region _)
  have apart := ok.heap.apart_of_ne _ _ (ok.owned slab here _ (buf_region slab)) (ok.owned _ there _ (buf_region _)) starts
  exact Region.apart_holds _ _ apart addr first second

theorem PoolOk.region_outside (region : Region) (ptr : Nat) (given : RegionAt pool region ptr) (slab : MemSlab)
    (there : slab ∈ pool.slabs) : region.Apart ⟨slab.buf, blockSize⟩ := by
  have starts := given.2.2 slab there _ (buf_region slab)
  apply ok.heap.apart_of_ne _ _ given.1 (ok.owned slab there _ (buf_region slab))
  rw [given.2.1]
  exact starts.symm

theorem PoolOk.region_holds (region : Region) (ptr : Nat) (given : RegionAt pool region ptr) : region.Holds ptr := by
  have some := ok.heap.size _ given.1
  rw [← given.2.1]
  exact ⟨Nat.le_refl _, by omega⟩

theorem PoolOk.find_block (slab : MemSlab) (i ptr : Nat) (block : BlockAt pool slab i ptr) :
    memPoolFindPtr pool.slabs ptr = some slab := by
  have holds := ok.block_holds slab i ptr block
  rw [memPoolFindPtr]
  cases found : classes.findSome? fun cls => pool.slabs.find? fun slab => slab.cls = cls && slab.buf ≤ ptr && ptr < slab.buf + blockSize with
  | none =>
    have absent := findSome?_eq_none_iff.mp found _ (ok.slabs slab block.1).known
    have other := find?_eq_none.mp absent slab block.1
    simp only [Bool.and_eq_true, decide_eq_true_eq] at other
    exact absurd ⟨⟨trivial, holds.1⟩, holds.2⟩ other
  | some other =>
    obtain ⟨cls, _, inner⟩ := exists_of_findSome?_eq_some found
    have matched := find?_some inner
    simp only [Bool.and_eq_true, decide_eq_true_eq] at matched
    exact congrArg some (ok.holder _ slab (mem_of_find?_eq_some inner) block.1 ptr ⟨matched.1.2, matched.2⟩ holds)

theorem PoolOk.find_region (region : Region) (ptr : Nat) (given : RegionAt pool region ptr) :
    memPoolFindPtr pool.slabs ptr = none := by
  rw [memPoolFindPtr, findSome?_eq_none_iff]
  intro cls _
  rw [find?_eq_none]
  intro slab there matched
  simp only [Bool.and_eq_true, decide_eq_true_eq] at matched
  have apart := ok.region_outside _ ptr given slab there
  exact Region.apart_holds _ _ apart ptr (ok.region_holds _ ptr given) ⟨matched.1.2, matched.2⟩

theorem PoolOk.found_served (ptr size : Nat) (served : Served pool ptr size) :
    match memPoolFindPtr pool.slabs ptr with
    | some slab => (∃ i, BlockAt pool slab i ptr) ∧ size ≤ slab.cls
    | none => ∃ region, RegionAt pool region ptr ∧ size ≤ region.size := by
  rcases served with ⟨slab, i, block, fits⟩ | ⟨region, given, fits⟩
  · rw [ok.find_block slab i ptr block]
    exact ⟨⟨i, block⟩, fits⟩
  · rw [ok.find_region _ ptr given]
    exact ⟨region, given, fits⟩

theorem PoolOk.served_holds (ptr size : Nat) (served : Served pool ptr size) :
    ∃ region ∈ pool.heap.regions, ∀ addr, addr < size → region.Holds (ptr + addr) := by
  rcases served with ⟨slab, i, block, fits⟩ | ⟨region, given, fits⟩
  · obtain ⟨low, high⟩ := block_inside slab i ptr block
    refine ⟨_, ok.owned slab block.1 _ (buf_region slab), fun addr below => ⟨?_, ?_⟩⟩
    · change slab.buf ≤ ptr + addr
      omega
    · change ptr + addr < slab.buf + blockSize
      omega
  · refine ⟨region, given.1, fun addr below => ⟨?_, ?_⟩⟩
    · rw [given.2.1]
      exact Nat.le_add_right _ _
    · rw [given.2.1]
      omega

theorem PoolOk.served_apart (one other size count : Nat) (first : Served pool one size) (second : Served pool other count)
    (differ : one ≠ other) : one + size ≤ other ∨ other + count ≤ one := by
  rcases first with ⟨slab, i, block, fits⟩ | ⟨region, given, fits⟩
  · obtain ⟨low, high⟩ := block_inside slab i one block
    rcases second with ⟨next, j, follow, room⟩ | ⟨region, given, room⟩
    · obtain ⟨from_, upto⟩ := block_inside next j _ follow
      by_cases same : slab = next
      · have places : i ≠ j := by
          intro equal
          rw [block.2.2.2, follow.2.2.2, same, equal] at differ
          exact differ rfl
        rw [block.2.2.2, follow.2.2.2, ← same]
        rw [← same] at room
        rcases Nat.lt_or_gt_of_ne places with before | behind
        · have step : (i + 1) * slab.cls ≤ j * slab.cls := Nat.mul_le_mul_right _ before
          rw [Nat.add_mul, Nat.one_mul] at step
          omega
        · have step : (j + 1) * slab.cls ≤ i * slab.cls := Nat.mul_le_mul_right _ behind
          rw [Nat.add_mul, Nat.one_mul] at step
          omega
      · have starts := ok.apart.forall block.1 follow.1 same _ (buf_region slab) _ (buf_region next)
        have apart := ok.heap.apart_of_ne _ _ (ok.owned slab block.1 _ (buf_region slab))
          (ok.owned next follow.1 _ (buf_region next)) starts
        rcases apart with before | behind
        · change slab.buf + blockSize ≤ next.buf at before
          omega
        · change next.buf + blockSize ≤ slab.buf at behind
          omega
    · have apart := ok.region_outside _ _ given slab block.1
      have start := given.2.1
      rcases apart with before | behind
      · change region.start + region.size ≤ slab.buf at before
        omega
      · change slab.buf + blockSize ≤ region.start at behind
        omega
  · have start := given.2.1
    rcases second with ⟨next, j, follow, room⟩ | ⟨second, taken, room⟩
    · obtain ⟨from_, upto⟩ := block_inside next j _ follow
      have apart := ok.region_outside _ one given next follow.1
      rcases apart with before | behind
      · change region.start + region.size ≤ next.buf at before
        omega
      · change next.buf + blockSize ≤ region.start at behind
        omega
    · have begin_ := taken.2.1
      have apart := ok.heap.apart_of_ne _ _ given.1 taken.1 (by omega)
      rcases apart with before | behind <;> omega

def SamePlace (slab next : MemSlab) : Prop :=
  next.self = slab.self ∧ next.buf = slab.buf ∧ next.superAt = slab.superAt ∧ next.cls = slab.cls

omit ok in
theorem same_place_malloc : SamePlace slab (memSlabMalloc slab).2 := by
  rw [memSlabMalloc]
  split
  · exact ⟨rfl, rfl, rfl, rfl⟩
  · split <;> exact ⟨rfl, rfl, rfl, rfl⟩

omit ok in
theorem same_place_regions (slab next : MemSlab) (same : SamePlace slab next) : slabRegions next = slabRegions slab := by
  obtain ⟨self, buf, superAt, cls⟩ := same
  rw [slabRegions, slabRegions, self, buf, superAt, cls]

theorem PoolOk.replace_mem (slab next : MemSlab) (there : slab ∈ pool.slabs) (same : SamePlace slab next) (other : MemSlab) :
    other ∈ replaceSlab pool.slabs next ↔ other = next ∨ other ∈ pool.slabs ∧ other ≠ slab := by
  rw [replaceSlab, mem_map]
  constructor
  · rintro ⟨old, listed, given⟩
    split at given
    · exact .inl given.symm
    · rename_i differ
      rw [← given]
      exact .inr ⟨listed, fun equal => differ (by rw [equal, same.1])⟩
  · rintro (new | ⟨listed, differ⟩)
    · exact ⟨slab, there, by rw [if_pos same.1.symm, new]⟩
    · refine ⟨other, listed, if_neg fun equal => differ ?_⟩
      exact ok.same_self _ slab listed there (equal.trans same.1)

theorem PoolOk.replace (slab next : MemSlab) (there : slab ∈ pool.slabs) (same : SamePlace slab next) (good : SlabOk next)
    (mem : Nat → UInt8) (calls : Nat) : PoolOk ⟨replaceSlab pool.slabs next, ⟨pool.heap.regions, mem, calls⟩⟩ := by
  have regions (old : MemSlab) (listed : old ∈ pool.slabs) :
      slabRegions (if old.self = next.self then next else old) = slabRegions old := by
    split
    · rename_i equal
      rw [ok.same_self old slab listed there (equal.trans same.1)]
      exact same_place_regions slab next same
    · rfl
  constructor
  · exact ok.heap
  · intro other listed
    rcases (ok.replace_mem slab next there same _).mp listed with new | old
    · rw [new]
      exact good
    · exact ok.slabs _ old.1
  · intro other listed region inside
    rcases (ok.replace_mem slab next there same _).mp listed with new | old
    · rw [new, same_place_regions slab next same] at inside
      exact ok.owned slab there _ inside
    · exact ok.owned _ old.1 _ inside
  · rw [replaceSlab, pairwise_map]
    refine Pairwise.imp_of_mem ?_ ok.apart
    intro one other here follow apart
    rw [SlabsApart, regions one here, regions _ follow]
    exact apart

end Pool

section Malloc

variable {libc : LibC} {pool : MemPool} (ok : PoolOk pool)

include ok

structure Gave (pool next : MemPool) (ptr size : Nat) : Prop where
  served : Served next ptr size
  others : ∀ other count, Served pool other count → other ≠ ptr ∧ Served next other count

theorem PoolOk.take_block (slab : MemSlab) (there : slab ∈ pool.slabs) (room : 0 < slab.left) :
    ∃ ptr, (memSlabMalloc slab).1 = some ptr ∧ PoolOk ⟨replaceSlab pool.slabs (memSlabMalloc slab).2, pool.heap⟩ ∧
      Gave pool ⟨replaceSlab pool.slabs (memSlabMalloc slab).2, pool.heap⟩ ptr slab.cls := by
  obtain ⟨i, below, free, answer, after, good⟩ := (ok.slabs slab there).malloc room
  have same := same_place_malloc slab
  have inside : i < slab.super.length := by
    rw [(ok.slabs slab there).length]
    omega
  have used (j : Nat) (old : slab.super[j]? = some true) : (memSlabMalloc slab).2.super[j]? = some true := by
    have differ : i ≠ j := by
      intro equal
      rw [← equal, free] at old
      cases old
    rw [after]
    exact (getElem?_set_ne differ).trans old
  have now : (memSlabMalloc slab).2.super[i]? = some true := by
    rw [after]
    exact getElem?_set_self inside
  have next := ok.replace slab _ there same good pool.heap.mem pool.heap.calls
  refine ⟨_, answer, next, ?_⟩
  have mine : BlockAt ⟨replaceSlab pool.slabs (memSlabMalloc slab).2, pool.heap⟩ (memSlabMalloc slab).2 i
      (slab.buf + i * slab.cls) := by
    refine ⟨(ok.replace_mem slab _ there same _).mpr (.inl rfl), ?_, now, ?_⟩
    · rw [same.2.2.2]
      exact below
    · rw [same.2.1, same.2.2.2]
  have holds : Region.Holds ⟨slab.buf, blockSize⟩ (slab.buf + i * slab.cls) := by
    have found := next.block_holds _ _ _ mine
    rwa [same.2.1] at found
  constructor
  · exact .inl ⟨_, i, mine, Nat.le_of_eq same.2.2.2.symm⟩
  · rintro other count (⟨old, j, block, fits⟩ | ⟨region, given, fits⟩)
    · by_cases equal : old = slab
      · rw [equal] at block fits
        constructor
        · intro clash
          have places := block_place slab.buf _ j (classes_sound _ (ok.slabs slab there).known).1
          rw [← block.2.2.2, clash, block_place _ _ i (classes_sound _ (ok.slabs slab there).known).1] at places
          rw [places] at free
          exact absurd (free.symm.trans block.2.2.1) (by decide)
        · refine .inl ⟨_, j, ⟨(ok.replace_mem slab _ there same _).mpr (.inl rfl), ?_, used j block.2.2.1, ?_⟩, ?_⟩
          · rw [same.2.2.2]
            exact block.2.1
          · rw [same.2.1, same.2.2.2]
            exact block.2.2.2
          · rwa [same.2.2.2]
      · constructor
        · intro clash
          have far := ok.block_holds old j _ block
          rw [clash] at far
          exact equal (ok.holder old slab block.1 there _ far holds)
        · exact .inl ⟨old, j, ⟨(ok.replace_mem slab _ there same _).mpr (.inr ⟨block.1, equal⟩), block.2⟩, fits⟩
    · constructor
      · intro clash
        have far := ok.region_holds _ _ given
        rw [clash] at far
        exact Region.apart_holds _ _ (ok.region_outside _ _ given slab there) _ far holds
      · refine .inr ⟨region, ⟨given.1, given.2.1, ?_⟩, fits⟩
        intro listed member own region
        rcases (ok.replace_mem slab _ there same _).mp member with new | old
        · rw [new, same_place_regions slab _ same] at region
          exact given.2.2 slab there own region
        · exact given.2.2 _ old.1 own region

theorem PoolOk.grown (heap : SysHeap) (grows : Grows pool.heap heap) (good : HeapOk heap.regions) : PoolOk ⟨pool.slabs, heap⟩ :=
  ⟨good, ok.slabs, fun slab there _ inside => grows.kept _ (ok.owned slab there _ inside), ok.apart⟩

omit ok in
theorem served_grown (heap : SysHeap) (grows : Grows pool.heap heap) (ptr size : Nat) (served : Served pool ptr size) :
    Served ⟨pool.slabs, heap⟩ ptr size := by
  rcases served with ⟨slab, i, block, fits⟩ | ⟨region, given, fits⟩
  · exact .inl ⟨slab, i, block, fits⟩
  · exact .inr ⟨region, ⟨grows.kept _ given.1, given.2⟩, fits⟩

theorem PoolOk.own_start (slab : MemSlab) (there : slab ∈ pool.slabs) (own : Region) (inside : own ∈ slabRegions slab) (ptr : Nat)
    (fresh : ∀ region ∈ pool.heap.regions, region.start ≠ ptr) : own.start ≠ ptr :=
  fresh own (ok.owned slab there own inside)

variable (libc) in
theorem PoolOk.plain_malloc (sz : Int) (small : sz < 2 ^ 64) :
    PoolOk (plainMalloc libc pool sz).2 ∧ Grows pool.heap (plainMalloc libc pool sz).2.heap ∧
      match (plainMalloc libc pool sz).1 with
      | none => ∀ other count, Served pool other count → Served (plainMalloc libc pool sz).2 other count
      | some ptr => Gave pool (plainMalloc libc pool sz).2 ptr sz.toNat := by
  obtain ⟨good, grows, answer⟩ := malloc_spec libc ok.heap (sizeT sz)
  rw [plainMalloc]
  refine ⟨ok.grown _ grows good, grows, ?_⟩
  cases result : (sysMalloc libc pool.heap (sizeT sz)).1 with
  | none => exact served_grown _ grows
  | some ptr =>
    rw [result] at answer
    obtain ⟨regions, fresh⟩ := answer
    have room : sz.toNat ≤ max (sizeT sz) 1 := by
      rw [sizeT]
      omega
    constructor
    · refine Or.inr ⟨⟨ptr, max (sizeT sz) 1⟩, ⟨?_, rfl, ?_⟩, room⟩
      · change _ ∈ (sysMalloc libc pool.heap (sizeT sz)).2.regions
        rw [regions]
        exact mem_cons_self
      · exact fun slab there own inside => ok.own_start slab there own inside ptr fresh
    · intro other count served
      refine ⟨?_, served_grown _ grows other count served⟩
      rintro clash
      rcases served with ⟨slab, i, block, _⟩ | ⟨region, given, _⟩
      · have apart := good.apart_of_ne ⟨slab.buf, blockSize⟩ ⟨ptr, max (sizeT sz) 1⟩
          (grows.kept _ (ok.owned slab block.1 _ (buf_region slab))) (by rw [regions]; exact mem_cons_self)
          (ok.own_start slab block.1 _ (buf_region slab) ptr fresh)
        have holds := ok.block_holds slab i other block
        rw [clash] at holds
        exact Region.apart_holds _ _ apart ptr holds
          ⟨Nat.le_refl _, Nat.lt_add_of_pos_right (Nat.lt_of_lt_of_le Nat.one_pos (Nat.le_max_right _ _))⟩
      · exact fresh region given.1 (given.2.1.trans clash)

-- What is freed right after it was handed out leaves everything as it was.
omit ok in
variable (libc) in
theorem given_back (heap next : SysHeap) (grows : Grows heap next) (good : HeapOk next.regions) (ptr size : Nat)
    (regions : next.regions = ⟨ptr, size⟩ :: heap.regions) (fresh : ∀ region ∈ heap.regions, region.start ≠ ptr) :
    (sysFree libc next ptr).regions = heap.regions ∧ Grows heap (sysFree libc next ptr) := by
  have same : (sysFree libc next ptr).regions = heap.regions := by
    rw [sysFree]
    rw [regions, others_fresh _ _ _ fresh]
  refine ⟨same, grows.shrunk (free_spec libc good ptr).2 fun region there => ?_⟩
  rw [same]
  exact there

variable (libc) in
theorem PoolOk.slab_new (cls : Nat) (known : cls ∈ classes) : Grows pool.heap (memPoolSlabNew libc pool cls).2 ∧
      match (memPoolSlabNew libc pool cls).1 with
      | none => (memPoolSlabNew libc pool cls).2.regions = pool.heap.regions
      | some slab => slab.cls = cls ∧ 0 < slab.left ∧ PoolOk ⟨slab :: pool.slabs, (memPoolSlabNew libc pool cls).2⟩ ∧
          ∀ own ∈ slabRegions slab, ∀ region ∈ pool.heap.regions, region.start ≠ own.start := by
  rw [memPoolSlabNew]
  obtain ⟨goodSelf, growsSelf, answerSelf⟩ := malloc_spec libc ok.heap sizeofSlab
  cases first : sysMalloc libc pool.heap sizeofSlab with
  | mk self heapSelf =>
    rw [first] at goodSelf growsSelf answerSelf
    cases self with
    | none => exact ⟨growsSelf, answerSelf⟩
    | some self =>
      obtain ⟨regionsSelf, freshSelf⟩ := answerSelf
      dsimp only at goodSelf growsSelf regionsSelf ⊢
      obtain ⟨goodBuf, growsBuf, answerBuf⟩ := malloc_spec libc goodSelf blockSize
      cases second : sysMalloc libc heapSelf blockSize with
      | mk buf heapBuf =>
        rw [second] at goodBuf growsBuf answerBuf
        cases buf with
        | none =>
          have regions : heapBuf.regions = ⟨self, max sizeofSlab 1⟩ :: pool.heap.regions := answerBuf.trans regionsSelf
          obtain ⟨same, grows⟩ := given_back libc _ _ (growsSelf.trans growsBuf) goodBuf self _ regions freshSelf
          exact ⟨grows, same⟩
        | some buf =>
          obtain ⟨regionsBuf, freshBuf⟩ := answerBuf
          dsimp only at goodBuf growsBuf regionsBuf ⊢
          obtain ⟨goodMap, growsMap, answerMap⟩ := malloc_spec libc goodBuf (perslab cls + 1)
          cases third : sysMalloc libc heapBuf (perslab cls + 1) with
          | mk superAt heapMap =>
            rw [third] at goodMap growsMap answerMap
            cases superAt with
            | none =>
              have regions : heapMap.regions = ⟨buf, max blockSize 1⟩ :: heapSelf.regions := answerMap.trans regionsBuf
              obtain ⟨same, grows⟩ := given_back libc _ _ (growsBuf.trans growsMap) goodMap buf _ regions freshBuf
              obtain ⟨good, _⟩ := free_spec libc goodMap buf
              obtain ⟨again, all⟩ := given_back libc _ _ (growsSelf.trans grows) good self _ (same.trans regionsSelf) freshSelf
              exact ⟨all, again⟩
            | some superAt =>
              obtain ⟨regionsMap, freshMap⟩ := answerMap
              dsimp only at goodMap growsMap regionsMap
              have fresh : ∀ own ∈ slabRegions ⟨self, buf, superAt, replicate (perslab cls + 1) false, 0, perslab cls, cls⟩,
                  ∀ region ∈ pool.heap.regions, region.start ≠ own.start := by
                intro own inside region there
                simp only [slabRegions, mem_cons, not_mem_nil, or_false] at inside
                rcases inside with here | here | here
                · rw [here]
                  exact freshBuf region (growsSelf.kept region there)
                · rw [here]
                  exact freshMap region (growsBuf.kept region (growsSelf.kept region there))
                · rw [here]
                  exact freshSelf region there
              refine ⟨(growsSelf.trans growsBuf).trans growsMap, rfl, (classes_sound cls known).2.1, ?_, fresh⟩
              constructor
              · exact goodMap
              · intro slab there
                rcases mem_cons.mp there with new | old
                · rw [new]
                  exact slab_ok_new self buf superAt cls known
                · exact ok.slabs slab old
              · intro slab there region inside
                rcases mem_cons.mp there with new | old
                · rw [new] at inside
                  change region ∈ heapMap.regions
                  simp only [slabRegions, mem_cons, not_mem_nil, or_false] at inside
                  rw [regionsMap, regionsBuf, regionsSelf, Nat.max_eq_left (Nat.succ_pos (perslab cls))]
                  rcases inside with here | here | here
                  · rw [here]
                    exact mem_cons_of_mem _ mem_cons_self
                  · rw [here]
                    exact mem_cons_self
                  · rw [here]
                    exact mem_cons_of_mem _ (mem_cons_of_mem _ mem_cons_self)
                · exact ((growsSelf.trans growsBuf).trans growsMap).kept region (ok.owned slab old region inside)
              · refine pairwise_cons.mpr ⟨?_, ok.apart⟩
                intro old there mine here theirs inside same
                exact fresh mine here theirs (ok.owned old there theirs inside) same.symm

variable (libc) in
theorem PoolOk.slab_malloc (cls : Nat) (known : cls ∈ classes) :
    PoolOk (memPoolSlabMalloc libc pool cls).2 ∧ Grows pool.heap (memPoolSlabMalloc libc pool cls).2.heap ∧
      match (memPoolSlabMalloc libc pool cls).1 with
      | none => ∀ other count, Served pool other count → Served (memPoolSlabMalloc libc pool cls).2 other count
      | some ptr => Gave pool (memPoolSlabMalloc libc pool cls).2 ptr cls := by
  rw [memPoolSlabMalloc]
  cases found : memPoolSlabFind pool.slabs cls with
  | some slab =>
    have there := mem_of_find?_eq_some found
    have matched := find?_some found
    simp only [Bool.and_eq_true, decide_eq_true_eq] at matched
    obtain ⟨ptr, answer, good, gave⟩ := ok.take_block slab there matched.2
    dsimp only
    rw [answer, ← matched.1]
    exact ⟨good, grows_refl, gave⟩
  | none =>
    obtain ⟨grows, answer⟩ := ok.slab_new libc cls known
    dsimp only
    cases made : memPoolSlabNew libc pool cls with
    | mk slab heap =>
      rw [made] at grows answer
      cases slab with
      | none =>
        have good : HeapOk heap.regions := by
          rw [show heap.regions = pool.heap.regions from answer]
          exact ok.heap
        exact ⟨ok.grown heap grows good, grows, served_grown heap grows⟩
      | some slab =>
        obtain ⟨named, room, added, fresh⟩ := answer
        obtain ⟨ptr, given, good, gave⟩ := added.take_block slab mem_cons_self room
        have self : (memSlabMalloc slab).2.self = slab.self := (same_place_malloc slab).1
        have front : replaceSlab (slab :: pool.slabs) (memSlabMalloc slab).2 = (memSlabMalloc slab).2 :: pool.slabs := by
          rw [replaceSlab, map_cons, if_pos self.symm]
          refine congrArg _ ((map_congr_left fun other there => if_neg ?_).trans (map_id _))
          intro equal
          have apart := (pairwise_cons.mp added.apart).1 other there
          exact apart _ (self_region slab) _ (self_region other) (self.symm.trans equal.symm)
        dsimp only at good gave ⊢
        rw [front] at good gave
        rw [given, ← named]
        refine ⟨good, grows, gave.served, fun other count served => gave.others other count ?_⟩
        rcases served with ⟨old, i, block, fits⟩ | ⟨region, taken, fits⟩
        · exact Or.inl ⟨old, i, ⟨mem_cons_of_mem _ block.1, block.2⟩, fits⟩
        · refine Or.inr ⟨region, ⟨grows.kept region taken.1, taken.2.1, ?_⟩, fits⟩
          intro listed member own inside same
          rcases mem_cons.mp member with new | old
          · rw [new] at inside
            exact fresh own inside region taken.1 (taken.2.1.trans same.symm)
          · exact taken.2.2 listed old own inside same

omit ok in
theorem gave_less (next : MemPool) (ptr size count : Nat) (gave : Gave pool next ptr size) (less : count ≤ size) :
    Gave pool next ptr count := by
  refine ⟨?_, gave.others⟩
  rcases gave.served with ⟨slab, i, block, fits⟩ | ⟨region, given, fits⟩
  · exact .inl ⟨slab, i, block, Nat.le_trans less fits⟩
  · exact .inr ⟨region, given, Nat.le_trans less fits⟩

variable (libc) in
theorem PoolOk.malloc (sz : Int) (small : sz < 2 ^ 64) :
    PoolOk (memMalloc libc pool sz).2 ∧ Grows pool.heap (memMalloc libc pool sz).2.heap ∧
      match (memMalloc libc pool sz).1 with
      | none => ∀ other count, Served pool other count → Served (memMalloc libc pool sz).2 other count
      | some ptr => Gave pool (memMalloc libc pool sz).2 ptr sz.toNat := by
  rw [memMalloc]
  split
  · exact ok.plain_malloc libc sz small
  · cases found : memPoolGetClass sz with
    | none => exact ok.plain_malloc libc sz small
    | some cls =>
      have known := mem_of_find?_eq_some found
      have fits := find?_some found
      rw [decide_eq_true_eq] at fits
      obtain ⟨good, grows, answer⟩ := ok.slab_malloc libc cls known
      dsimp only
      cases made : memPoolSlabMalloc libc pool cls with
      | mk ptr next =>
        rw [made] at good grows answer
        cases ptr with
        | some ptr => exact ⟨good, grows, gave_less next ptr cls _ answer (by omega)⟩
        | none =>
          obtain ⟨after, more, last⟩ := good.plain_malloc libc sz small
          refine ⟨after, grows.trans more, ?_⟩
          dsimp only
          cases result : (plainMalloc libc next sz).1 with
          | none =>
            rw [result] at last
            exact fun other count served => last other count (answer other count served)
          | some ptr =>
            rw [result] at last
            exact ⟨last.served, fun other count served => last.others other count (answer other count served)⟩

variable (libc) in
theorem PoolOk.malloc_keeps (sz : Int) (slab : MemSlab) (there : slab ∈ pool.slabs) :
    ∃ now ∈ (memMalloc libc pool sz).2.slabs, SamePlace slab now := by
  have here : SamePlace slab slab := ⟨rfl, rfl, rfl, rfl⟩
  have served (cls : Nat) : ∃ now ∈ (memPoolSlabMalloc libc pool cls).2.slabs, SamePlace slab now := by
    rw [memPoolSlabMalloc]
    cases found : memPoolSlabFind pool.slabs cls with
    | some other =>
      have same := same_place_malloc other
      have listed := mem_of_find?_eq_some found
      by_cases equal : slab = other
      · exact ⟨_, (ok.replace_mem other _ listed same _).mpr (Or.inl rfl), equal ▸ same⟩
      · exact ⟨slab, (ok.replace_mem other _ listed same slab).mpr (Or.inr ⟨there, equal⟩), here⟩
    | none =>
      dsimp only
      split
      · exact ⟨slab, there, here⟩
      · exact ⟨slab, mem_cons_of_mem _ there, here⟩
  rw [memMalloc]
  split
  · exact ⟨slab, there, here⟩
  · split
    · exact ⟨slab, there, here⟩
    · rename_i cls _
      have kept := served cls
      split
      · rename_i next made
        rwa [made] at kept
      · rename_i ptr next made
        rwa [made] at kept

end Malloc

end Codec.Ems
