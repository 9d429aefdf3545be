import Mathlib.Data.List.GetD

set_option autoImplicit false

namespace Codec.Lib.Heapq

open List

-- heapq of CPython. The comparison may be any, also one that calls nothing less
-- than anything else.
section Calls

variable {α : Type} (less : α → α → Bool)

def siftdown (item : α) : Nat → List α → Nat → List α
  | 0, heap, pos => heap.set pos item
  | fuel + 1, heap, pos =>
    if pos = 0 then heap.set pos item
    else if less item (heap.getD ((pos - 1) / 2) item) then
      siftdown item fuel (heap.set pos (heap.getD ((pos - 1) / 2) item)) ((pos - 1) / 2)
    else heap.set pos item

-- The right child is taken unless the left one is less.
def childOf (item : α) (heap : List α) (pos : Nat) : Nat :=
  if 2 * pos + 2 < heap.length ∧ less (heap.getD (2 * pos + 1) item) (heap.getD (2 * pos + 2) item) = false then 2 * pos + 2
  else 2 * pos + 1

-- _siftup: the hole goes down to a leaf, and the item up again from there.
def siftup (item : α) : Nat → List α → Nat → List α
  | 0, heap, pos => siftdown less item pos heap pos
  | fuel + 1, heap, pos =>
    if 2 * pos + 1 < heap.length then
      siftup item fuel (heap.set pos (heap.getD (childOf less item heap pos) item)) (childOf less item heap pos)
    else siftdown less item pos heap pos

def heappush (heap : List α) (item : α) : List α := siftdown less item heap.length (heap ++ [item]) heap.length

def refill (rest : List α) : List α :=
  match rest.getLast? with
  | none => []
  | some last => siftup less last rest.length (last :: rest.dropLast) 0

def heappop : List α → Option (α × List α)
  | [] => none
  | first :: rest => some (first, refill less rest)

end Calls

section Perm

variable {α : Type} (less : α → α → Bool)

theorem hole_moves (item : α) (heap : List α) (hole other : Nat) (apart : hole ≠ other) (here : hole < heap.length)
    (there : other < heap.length) : ((heap.set hole (heap.getD other item)).set other item).Perm (heap.set hole item) := by
  have swap : (((heap.set hole item).set hole _).set _ _).Perm _ :=
    set_set_perm (by simpa using here) (by simpa using there)
  simpa [apart, there] using swap

theorem siftdown_perm (item : α) (fuel : Nat) (heap : List α) (pos : Nat) (here : pos < heap.length) :
    (siftdown less item fuel heap pos).Perm (heap.set pos item) := by
  induction fuel generalizing heap pos with
  | zero => exact Perm.refl _
  | succ fuel ih =>
    rw [siftdown]
    by_cases top : pos = 0
    · rw [if_pos top]
    rw [if_neg top]
    have above : (pos - 1) / 2 < heap.length := by omega
    split
    · refine (ih _ _ (by simpa using above)).trans ?_
      exact hole_moves item heap pos _ (by omega) here above
    · exact Perm.refl _

theorem child_below (item : α) (heap : List α) (pos : Nat) (some : 2 * pos + 1 < heap.length) :
    pos < childOf less item heap pos ∧ childOf less item heap pos < heap.length := by
  unfold childOf
  split <;> omega

theorem siftup_perm (item : α) (fuel : Nat) (heap : List α) (pos : Nat) (here : pos < heap.length) :
    (siftup less item fuel heap pos).Perm (heap.set pos item) := by
  induction fuel generalizing heap pos with
  | zero => exact siftdown_perm less item pos heap pos here
  | succ fuel ih =>
    rw [siftup]
    split
    · next leaf =>
        have below := child_below less item heap pos leaf
        refine (ih _ _ (by simpa using below.2)).trans ?_
        exact hole_moves item heap pos _ (Nat.ne_of_lt below.1) here below.2
    · exact siftdown_perm less item pos heap pos here

theorem push_perm (heap : List α) (item : α) : (heappush less heap item).Perm (heap ++ [item]) := by
  simpa [heappush] using siftdown_perm less item _ (heap ++ [item]) heap.length (by simp)

theorem refill_perm (rest : List α) : (refill less rest).Perm rest := by
  rcases eq_nil_or_concat rest with rfl | ⟨front, last, rfl⟩
  · exact Perm.refl _
  · have shift : (last :: front).Perm _ := (perm_append_singleton last _).symm
    simpa [refill] using (siftup_perm less last _ (last :: front) 0 (by simp)).trans shift

theorem pop_perm (heap rest : List α) (first : α) (popped : heappop less heap = some (first, rest)) : (first :: rest).Perm heap := by
  cases heap with
  | nil => cases popped
  | cons head tail =>
    obtain ⟨rfl, rfl⟩ : head = first ∧ refill less tail = rest := by simpa [heappop] using popped
    exact (refill_perm less tail).cons head

end Perm

-- The calls compare and move, so they do the same to the images of the items.
section Images

variable {α β : Type} (less : α → α → Bool) (image : β → α)

theorem siftdown_map (item : β) (fuel : Nat) (heap : List β) (pos : Nat) :
    siftdown less (image item) fuel (heap.map image) pos =
      (siftdown (fun left right => less (image left) (image right)) item fuel heap pos).map image := by
  induction fuel generalizing heap pos with
  | zero => simp [siftdown]
  | succ fuel ih =>
    simp only [siftdown, getD_map]
    split
    · simp
    · split
      · rw [← ih, map_set]
      · simp

theorem child_map (item : β) (heap : List β) (pos : Nat) :
    childOf less (image item) (heap.map image) pos = childOf (fun left right => less (image left) (image right)) item heap pos := by
  simp only [childOf, getD_map, length_map]

theorem siftup_map (item : β) (fuel : Nat) (heap : List β) (pos : Nat) : siftup less (image item) fuel (heap.map image) pos =
      (siftup (fun left right => less (image left) (image right)) item fuel heap pos).map image := by
  induction fuel generalizing heap pos with
  | zero => exact siftdown_map less _ item pos heap pos
  | succ fuel ih =>
    simp only [siftup, child_map, getD_map, length_map]
    split
    · rw [← ih, map_set]
    · exact siftdown_map less _ item pos heap pos

theorem refill_map (rest : List β) :
    refill less (rest.map image) = (refill (fun left right => less (image left) (image right)) rest).map image := by
  rcases eq_nil_or_concat rest with rfl | ⟨front, last, rfl⟩
  · rfl
  · simpa [refill] using siftup_map less _ last _ (last :: front) 0

end Images

def order (count : Nat) : List Nat := refill (fun _ _ => false) (List.range count)

def Exchanged (count first second : Nat) : Prop := first < second ∧ List.Sublist [second, first] (order count)

instance decidableExchanged (count first second : Nat) : Decidable (Exchanged count first second) :=
  inferInstanceAs (Decidable (_ ∧ _))

example : order 2 = [0, 1] ∧ order 3 = [1, 0, 2] ∧ order 7 = [1, 0, 5, 2, 3, 4, 6] := by decide

section Level

variable {α : Type} (less : α → α → Bool)

theorem push_level (heap : List α) (item : α) (level : ∀ other ∈ heap, less item other = false) :
    heappush less heap item = heap ++ [item] := by
  cases heap with
  | nil => rfl
  | cons first rest =>
    have above : less item ((first :: rest ++ [item]).getD ((rest.length + 1 - 1) / 2) item) = false := by
      have short : (rest.length + 1 - 1) / 2 < (first :: rest).length := by
        simp only [length_cons]
        omega
      rw [getD_append _ _ _ _ short, getD_eq_getElem _ _ short]
      exact level _ (getElem_mem _)
    rw [heappush, length_cons, siftdown, if_neg (Nat.succ_ne_zero _), above]
    simp

theorem by_place (rest : List α) (filler : α) : rest = (List.range rest.length).map (rest.getD · filler) := by
  refine ext_getElem (by simp) fun place left right => ?_
  rw [getElem_map, getElem_range, getD_eq_getElem _ _ left]

theorem refill_level (rest : List α) (filler : α) (level : ∀ left ∈ rest, ∀ right ∈ rest, less left right = false) :
    refill less rest = (order rest.length).map (rest.getD · filler) := by
  cases rest with
  | nil => rfl
  | cons first tail =>
    have inside (place : Nat) : (first :: tail).getD place first ∈ first :: tail := by
      rcases Nat.lt_or_ge _ _ with short | long
      · rw [getD_eq_getElem _ _ _]
        exact getElem_mem short
      · rw [getD_eq_default _ _ long]
        exact mem_cons_self
    have flat : (fun left right => less _ _) = fun _ _ => false :=
      funext fun left => funext fun right => level _ (inside left) _ (inside right)
    calc refill less _
        = refill less _ := congrArg _ (by_place _ _)
      _ = (order _).map _ := by rw [refill_map, flat, order]
      _ = (order _).map _ := by
          refine map_congr_left fun place there => ?_
          have short : place < (first :: tail).length := mem_range.mp ((refill_perm _ _).mem_iff.mp there)
          rw [getD_eq_getElem _ _ _, getD_eq_getElem _ _ short]

theorem refill_filter (rest : List α) (filler : α) (level : ∀ left ∈ rest, ∀ right ∈ rest, less left right = false) (kind : α → Bool)
    (kept : ∀ first second, Exchanged rest.length first second → ¬ (kind (rest.getD first filler) = true ∧ kind (rest.getD second filler) = true)) :
    (refill less rest).filter kind = rest.filter kind := by
  have perm := (refill_perm (fun _ _ => false) (range rest.length)).filter (fun place => kind (rest.getD place filler))
  have sorted : ((order rest.length).filter fun place => kind (rest.getD place filler)).Pairwise (· < ·) := by
    refine pairwise_iff_forall_sublist.mpr fun {left right} pair => ?_
    have wanted : left ∈ (order _).filter _ ∧ right ∈ (order _).filter _ :=
      ⟨pair.subset mem_cons_self, pair.subset (mem_cons_of_mem _ mem_cons_self)⟩
    have whole : Sublist _ _ := pair.trans filter_sublist
    have apart : left ≠ right := by
      have nodup := ((refill_perm _ _).nodup_iff.mpr nodup_range).sublist whole
      simpa using nodup
    rcases Nat.lt_or_gt_of_ne apart with less | more
    · exact less
    · exact absurd ⟨(mem_filter.mp wanted.2).2, (mem_filter.mp wanted.1).2⟩ (kept _ left ⟨more, whole⟩)
  have same : (order _).filter _ =
      (range _).filter fun place => kind _ :=
    perm.eq_of_pairwise (fun _ _ _ _ left right => absurd left (Nat.lt_asymm right)) sorted (pairwise_lt_range.filter _)
  calc (refill less rest).filter kind
      = ((order _).map _).filter kind := by rw [refill_level less rest filler level]
    _ = ((range _).map _).filter kind := by
        rw [filter_map, filter_map]
        exact congrArg _ same
    _ = rest.filter kind := by rw [← by_place rest _]

end Level

end Codec.Lib.Heapq
