import Mathlib.Data.List.Pairwise
import Mathlib.Data.List.Nodup

set_option autoImplicit false

namespace Codec.Lib

-- Memory that the system has handed out: where it starts, never at address 0,
-- and how many bytes it has, at least one.
structure Region where
  start : Nat
  size : Nat
  deriving DecidableEq, Repr

namespace Region

def Holds (region : Region) (addr : Nat) : Prop := region.start ≤ addr ∧ addr < region.start + region.size

instance (region : Region) (addr : Nat) : Decidable (region.Holds addr) := inferInstanceAs (Decidable (_ ∧ _))

def Apart (one other : Region) : Prop := one.start + one.size ≤ other.start ∨ other.start + other.size ≤ one.start

theorem apart_symm (one other : Region) (apart : one.Apart other) : other.Apart one := Or.symm apart

instance apartSymm : Std.Symm Region.Apart := ⟨apart_symm⟩

theorem apart_holds (one other : Region) (apart : one.Apart other) (addr : Nat) (here : one.Holds addr) : ¬ other.Holds addr := by
  intro there
  obtain ⟨low, high⟩ := here
  obtain ⟨from_, upto⟩ := there
  rcases apart with before | behind <;> omega

end Region

variable (regions : List Region)

-- malloc and realloc of the C library. What they answer depends on anything
-- (here on how often they have been called and what is handed out), but what
-- they hand out lies apart from everything that is handed out already.
structure LibC where
  malloc : Nat → List Region → Nat → Option Nat
  realloc : Nat → List Region → Nat → Nat → Option Nat
  garbage : Nat → Nat → UInt8
  malloc_apart : ∀ calls regions size ptr, malloc calls regions size = some ptr →
    0 < ptr ∧ ∀ region ∈ regions, Region.Apart ⟨ptr, max size 1⟩ region
  realloc_apart : ∀ calls regions old size ptr, realloc calls regions old size = some ptr →
    0 < ptr ∧ ∀ region ∈ regions, region.start ≠ old → Region.Apart ⟨ptr, max size 1⟩ region

def topOf : Nat := regions.foldr (fun region top => max (region.start + region.size) top) 0

theorem below_top (region : Region) (there : region ∈ regions) :
    region.start + region.size ≤ topOf regions := by
  induction regions with
  | nil => cases there
  | cons first rest ih =>
    rcases List.mem_cons.mp there with here | later
    · rw [here]
      exact Nat.le_max_left _ _
    · exact Nat.le_trans (ih later) (Nat.le_max_right _ _)

def bumpLibC : LibC where
  malloc := fun _ regions _ => some (topOf regions + 1)
  realloc := fun _ regions _ _ => some (topOf regions + 1)
  garbage := fun _ _ => 0
  malloc_apart := fun _ _ _ _ answer =>
    Option.some.inj answer ▸ ⟨Nat.succ_pos _, fun region there => Or.inr (Nat.le_succ_of_le (below_top _ region there))⟩
  realloc_apart := fun _ _ _ _ _ answer =>
    Option.some.inj answer ▸ ⟨Nat.succ_pos _, fun region there _ => Or.inr (Nat.le_succ_of_le (below_top _ region there))⟩

structure SysHeap where
  regions : List Region
  mem : Nat → UInt8
  calls : Nat

section System

variable (libc : LibC) (heap : SysHeap)

def settle (kept : List Region) : Nat → UInt8 := fun addr =>
  if ∃ region ∈ kept, region.Holds addr then heap.mem addr else libc.garbage heap.calls addr

def sysMalloc (size : Nat) : Option Nat × SysHeap :=
  match libc.malloc heap.calls heap.regions size with
  | none => (none, ⟨heap.regions, settle libc heap heap.regions, heap.calls + 1⟩)
  | some ptr => (some ptr, ⟨⟨ptr, max size 1⟩ :: heap.regions, settle libc heap heap.regions, heap.calls + 1⟩)

def others (ptr : Nat) : List Region := regions.filter (·.start ≠ ptr)

def sysFree (ptr : Nat) : SysHeap := ⟨others heap.regions ptr, settle libc heap (others heap.regions ptr), heap.calls + 1⟩

def regionSize (ptr : Nat) : Nat := ((regions.find? (·.start = ptr)).map Region.size).getD 0

def copied (mem : Nat → UInt8) (dst src count : Nat) : Nat → UInt8 := fun addr =>
  if dst ≤ addr ∧ addr < dst + count then mem (src + (addr - dst)) else mem addr

-- Asked for no bytes, realloc frees.
def sysRealloc (ptr size : Nat) : Option Nat × SysHeap :=
  match libc.realloc heap.calls heap.regions ptr size with
  | none =>
    if size = 0 then (none, sysFree libc heap ptr)
    else (none, ⟨heap.regions, settle libc heap heap.regions, heap.calls + 1⟩)
  | some new =>
    let kept := others heap.regions ptr
    let count := min (regionSize heap.regions ptr) size
    (some new, ⟨⟨new, max size 1⟩ :: kept,
      fun addr => if new ≤ addr ∧ addr < new + count then heap.mem (ptr + (addr - new)) else settle libc heap kept addr,
      heap.calls + 1⟩)

end System

structure HeapOk (regions : List Region) : Prop where
  apart : regions.Pairwise Region.Apart
  start : ∀ region ∈ regions, 0 < region.start
  size : ∀ region ∈ regions, 0 < region.size

structure Grows (heap next : SysHeap) : Prop where
  kept : ∀ region ∈ heap.regions, region ∈ next.regions
  mem : ∀ region ∈ heap.regions, ∀ addr, region.Holds addr → next.mem addr = heap.mem addr

structure Shrinks (heap next : SysHeap) : Prop where
  old : ∀ region ∈ next.regions, region ∈ heap.regions
  mem : ∀ region ∈ next.regions, ∀ addr, region.Holds addr → next.mem addr = heap.mem addr

section Facts

variable {libc : LibC} {heap middle next : SysHeap}

theorem HeapOk.apart_of_ne (ok : HeapOk heap.regions) (one other : Region) (here : one ∈ heap.regions) (there : other ∈ heap.regions)
    (differ : one.start ≠ other.start) : one.Apart other :=
  ok.apart.forall here there fun same => differ (congrArg _ same)

theorem HeapOk.same_start (ok : HeapOk heap.regions) (one other : Region) (here : one ∈ heap.regions) (there : other ∈ heap.regions)
    (same : one.start = other.start) : one = other := by
  by_contra differ
  have apart := ok.apart.forall here there differ
  have first := ok.size one here
  have second := ok.size _ there
  rcases apart with before | behind <;> omega

theorem grows_refl : Grows heap heap := ⟨fun _ there => there, fun _ _ _ _ => rfl⟩

theorem Grows.trans (first : Grows heap middle) (second : Grows middle next) : Grows heap next where
  kept := fun _ there => second.kept _ (first.kept _ there)
  mem := fun _ there addr holds => (second.mem _ (first.kept _ there) addr holds).trans (first.mem _ there addr holds)

theorem Shrinks.trans (first : Shrinks heap middle) (second : Shrinks middle next) : Shrinks heap next where
  old := fun _ there => first.old _ (second.old _ there)
  mem := fun _ there addr holds => (second.mem _ there addr holds).trans (first.mem _ (second.old _ there) addr holds)

theorem Grows.shrunk (first : Grows heap middle) (second : Shrinks middle next) (kept : ∀ region ∈ heap.regions, region ∈ next.regions) :
    Grows heap next where
  kept := kept
  mem := fun _ there addr holds => (second.mem _ (kept _ there) addr holds).trans (first.mem _ there addr holds)

theorem settle_kept (kept : List Region) (region : Region) (there : region ∈ kept) (addr : Nat) (holds : region.Holds addr) :
    settle libc heap kept addr = heap.mem addr :=
  if_pos ⟨region, there, holds⟩

theorem others_mem (ptr : Nat) (region : Region) :
    region ∈ others regions ptr ↔ region ∈ regions ∧ region.start ≠ ptr := by
  rw [others, List.mem_filter, decide_eq_true_eq]

theorem others_ok (ok : HeapOk heap.regions) (ptr : Nat) : HeapOk (others heap.regions ptr) where
  apart := List.Pairwise.filter _ ok.apart
  start := fun _ there => ok.start _ ((others_mem _ _ _).mp there).1
  size := fun _ there => ok.size _ ((others_mem _ _ _).mp there).1

theorem others_fresh (ptr size : Nat) (fresh : ∀ region ∈ regions, region.start ≠ ptr) :
    others (⟨ptr, size⟩ :: regions) ptr = regions := by
  rw [others, List.filter_cons_of_neg (by simp)]
  exact List.filter_eq_self.mpr fun region there => decide_eq_true (fresh _ there)

theorem fresh_start (ok : HeapOk regions) (ptr size : Nat) 
    (apart : ∀ region ∈ regions, Region.Apart ⟨ptr, max size 1⟩ region) (region : Region) (there : region ∈ regions) :
    region.start ≠ ptr := by
  intro same
  have clear := apart _ there
  have some := ok.size _ there
  rcases clear with before | behind
  · change ptr + max size 1 ≤ region.start at before
    omega
  · change region.start + region.size ≤ ptr at behind
    omega

theorem cons_ok (ok : HeapOk regions) (ptr size : Nat) (positive : 0 < ptr)
    (apart : ∀ region ∈ regions, Region.Apart ⟨ptr, max size 1⟩ region) : HeapOk (⟨ptr, max size 1⟩ :: regions) where
  apart := List.pairwise_cons.mpr ⟨apart, ok.apart⟩
  start := fun _ there => by
    rcases List.mem_cons.mp there with new | old
    · rw [new]
      exact positive
    · exact ok.start _ old
  size := fun _ there => by
    rcases List.mem_cons.mp there with new | old
    · rw [new]
      exact Nat.lt_of_lt_of_le Nat.one_pos (Nat.le_max_right _ _)
    · exact ok.size _ old

variable (libc) in
theorem malloc_spec (ok : HeapOk heap.regions) (size : Nat) :
    HeapOk (sysMalloc libc heap size).2.regions ∧ Grows heap (sysMalloc libc heap size).2 ∧
      match (sysMalloc libc heap size).1 with
      | none => (sysMalloc libc heap size).2.regions = heap.regions
      | some ptr => (sysMalloc libc heap size).2.regions = ⟨ptr, max size 1⟩ :: heap.regions ∧
          ∀ region ∈ heap.regions, region.start ≠ ptr := by
  rw [sysMalloc]
  split
  · exact ⟨ok, ⟨fun _ there => there, fun region there addr => settle_kept _ region there addr⟩, rfl⟩
  · rename_i ptr answer
    obtain ⟨positive, apart⟩ := libc.malloc_apart _ _ _ _ answer
    exact ⟨cons_ok _ ok ptr size positive apart,
      ⟨fun _ there => List.mem_cons_of_mem _ there, fun region there addr => settle_kept _ region there addr⟩, rfl,
      fresh_start _ ok ptr size apart⟩

variable (libc) in
theorem free_spec (ok : HeapOk heap.regions) (ptr : Nat) :
    HeapOk (sysFree libc heap ptr).regions ∧ Shrinks heap (sysFree libc heap ptr) :=
  ⟨others_ok ok ptr, fun _ there => ((others_mem _ _ _).mp there).1,
    fun region there addr => settle_kept _ region there addr⟩

theorem region_size (ok : HeapOk heap.regions) (region : Region) (there : region ∈ heap.regions) :
    regionSize heap.regions region.start = region.size := by
  rw [regionSize]
  cases found : heap.regions.find? _ with
  | none => exact absurd (List.find?_eq_none.mp found _ there) (by simp)
  | some other =>
    have start := List.find?_some found
    have same := ok.same_start _ _ (List.mem_of_find?_eq_some found) there (of_decide_eq_true start)
    rw [same]
    rfl

structure Moved (heap next : SysHeap) (region : Region) (new size : Nat) : Prop where
  ok : HeapOk next.regions
  regions : next.regions = ⟨new, max size 1⟩ :: others heap.regions region.start
  fresh : ∀ other ∈ heap.regions, other.start ≠ region.start → other.start ≠ new
  mem : ∀ other ∈ heap.regions, other.start ≠ region.start → ∀ addr, other.Holds addr → next.mem addr = heap.mem addr
  copied : ∀ addr, addr < min region.size size → next.mem (new + addr) = heap.mem (region.start + addr)

variable (libc) in
theorem realloc_spec (ok : HeapOk heap.regions) (region : Region) (there : region ∈ heap.regions) (size : Nat) :
    match (sysRealloc libc heap region.start size).1 with
    | none => (sysRealloc libc heap region.start size).2.regions =
        (if size = 0 then others heap.regions region.start else heap.regions) ∧
          Shrinks heap (sysRealloc libc heap region.start size).2
    | some new => Moved heap (sysRealloc libc heap region.start size).2 region new size := by
  cases answer : libc.realloc heap.calls heap.regions region.start size with
  | none =>
    by_cases zero : size = 0
    · have same : sysRealloc libc heap region.start size = (none, sysFree libc heap region.start) := by
        rw [sysRealloc, answer]
        exact if_pos zero
      rw [same]
      exact ⟨(if_pos zero).symm, (free_spec libc ok region.start).2⟩
    · have same : sysRealloc libc heap region.start size =
          (none, ⟨heap.regions, settle libc heap heap.regions, heap.calls + 1⟩) := by
        rw [sysRealloc, answer]
        exact if_neg zero
      rw [same]
      exact ⟨(if_neg zero).symm, fun _ there => there, fun region there addr => settle_kept _ region there addr⟩
  | some new =>
    rw [sysRealloc, answer]
    obtain ⟨positive, apart⟩ := libc.realloc_apart _ _ _ _ _ answer
    have kept := others_ok ok region.start
    have clear (other : Region) (inside : other ∈ others heap.regions region.start) : Region.Apart ⟨new, max size 1⟩ other := by
      obtain ⟨listed, differ⟩ := (others_mem _ _ _).mp inside
      exact apart other listed differ
    rw [region_size ok region there]
    constructor
    · exact cons_ok _ kept new size positive clear
    · rfl
    · intro other listed differ
      exact fresh_start _ kept new size clear other ((others_mem _ _ _).mpr ⟨listed, differ⟩)
    · intro other listed differ addr holds
      have inside := (others_mem _ _ _).mpr ⟨listed, differ⟩
      have outside : ¬ (new ≤ addr ∧ addr < new + min region.size size) := by
        rintro ⟨low, high⟩
        refine Region.apart_holds _ _ (clear other inside) addr ⟨low, ?_⟩ holds
        change addr < new + max size 1
        omega
      exact (if_neg outside).trans (settle_kept _ other inside addr holds)
    · intro addr below
      have inside : new ≤ new + addr ∧ new + addr < new + min region.size size := ⟨by omega, by omega⟩
      refine (if_pos inside).trans ?_
      rw [Nat.add_sub_cancel_left]

end Facts

end Codec.Lib
