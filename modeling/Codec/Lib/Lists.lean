import Mathlib.Data.List.Pairwise
import Mathlib.Data.List.Perm.Basic
import Mathlib.Data.List.Nodup
import Mathlib.Data.List.Count

set_option autoImplicit false

namespace Codec.Lib

open List

-- One entry of a list is changed in place or taken out of it.
section Entry

variable {α : Type}

theorem mem_around (before behind : List α) (entry : Option α) (item : α) :
    item ∈ before ++ (entry.toList ++ behind) ↔ item ∈ before ∨ entry = some item ∨ item ∈ behind := by
  simp

theorem pairwise_around (related : α → α → Prop) [Std.Symm related] (before behind : List α) (old : α) (entry : Option α)
    (carries : ∀ new, entry = some new → ∀ other ∈ before ++ behind, related old other → related new other)
    (pairs : (before ++ old :: behind).Pairwise related) : (before ++ (entry.toList ++ behind)).Pairwise related := by
  cases entry with
  | none => exact pairs.sublist (Sublist.append_left (sublist_cons_self old _) _)
  | some new =>
    rw [pairwise_append, pairwise_cons] at pairs
    obtain ⟨left, ⟨ahead, right⟩, across⟩ := pairs
    simp only [Option.toList_some, singleton_append]
    rw [pairwise_append, pairwise_cons]
    refine ⟨left, ⟨?_, right⟩, ?_⟩
    · intro other member
      exact carries new rfl _ (mem_append_right _ member) (ahead _ member)
    · intro other member item there
      cases there with
      | head =>
        have apart := Std.Symm.symm _ _ (across _ member old mem_cons_self)
        exact Std.Symm.symm _ _ (carries new rfl _ (mem_append_left _ member) apart)
      | tail _ later => exact across _ member item (mem_cons_of_mem old later)

end Entry

-- Records that are told apart by a key. An edit under the key of one of them
-- changes that one, a filter takes out that one.
section Keyed

variable {α κ : Type} [DecidableEq κ] (key : α → κ)

theorem keyed_split (items : List α) (distinct : (items.map key).Nodup) (item : α) (there : item ∈ items) :
    ∃ before behind, items = before ++ item :: behind ∧
      (∀ change : α → α, (items.map fun other => if key other = key item then change other else other) =
        before ++ change item :: behind) ∧ items.filter (fun other => key other ≠ key item) = before ++ behind := by
  obtain ⟨before, behind, split⟩ := append_of_mem there
  rw [split, map_append, map_cons, nodup_append, nodup_cons] at distinct
  obtain ⟨_, ⟨later, _⟩, across⟩ := distinct
  have earlier (other : α) (member : other ∈ before) : key _ ≠ key item :=
    across _ (mem_map_of_mem member) _ mem_cons_self
  have after (other : α) (member : other ∈ behind) : key _ ≠ key item := fun same => later (same ▸ mem_map_of_mem member)
  have left (change : α → α) :
      (before.map fun other => if key _ = key item then change other else other) = before :=
    (map_congr_left fun other member => if_neg (earlier _ member)).trans (map_id _)
  have right (change : α → α) :
      (behind.map fun other => if key _ = key item then change other else other) = behind :=
    (map_congr_left fun other member => if_neg (after _ member)).trans (map_id _)
  refine ⟨before, behind, split, ?_, ?_⟩
  · intro change
    rw [split, map_append, map_cons, left, right, if_pos rfl]
  · rw [split, filter_append, filter_cons_of_neg (by simp)]
    rw [filter_eq_self.mpr fun other member => decide_eq_true (earlier _ member)]
    rw [filter_eq_self.mpr fun other member => decide_eq_true (after _ member)]

end Keyed

section Diff

variable {α : Type} [DecidableEq α]

theorem append_diff_left (left right : List α) : (left ++ right).diff left = right := by
  induction left with
  | nil => rfl
  | cons item rest ih =>
    rw [cons_append, diff_cons, erase_cons_head]
    exact ih

theorem diff_around (rules before own behind : List α) (all : rules.Perm (before ++ (own ++ behind))) :
    (rules.diff own).Perm (before ++ behind) := by
  have front : (before ++ (own ++ behind)).Perm (own ++ (before ++ behind)) := by
    rw [← append_assoc, ← append_assoc]
    exact Perm.append_right _ perm_append_comm
  have taken := (all.trans front).diff_right own
  rwa [append_diff_left] at taken

end Diff

-- A multiset of grants kept as a list, and the owners that account for it:
-- no grant has more copies than it has owners.
section Cover

variable {α : Type} [DecidableEq α]

def Covers (owners grants : List α) : Prop := ∀ grant, grants.count grant ≤ owners.count grant

theorem covers_nil (owners : List α) : Covers owners [] := fun grant => by simp

theorem covers_mem (owners grants : List α) (covers : Covers owners grants) (grant : α) (granted : grant ∈ grants) :
    grant ∈ owners := by
  have positive : 0 < grants.count _ := count_pos_iff.mpr granted
  exact count_pos_iff.mp (Nat.lt_of_lt_of_le positive (covers _))

theorem covers_more (left right grants : List α) (owner : α) (covers : Covers (left ++ right) grants) :
    Covers (left ++ owner :: right) grants := by
  intro grant
  have enough := covers grant
  simp only [count_append, count_cons] at enough ⊢
  omega

theorem covers_gain (left right grants : List α) (owner : α) (covers : Covers (left ++ right) grants) :
    Covers (left ++ owner :: right) (grants ++ [owner]) := by
  intro grant
  have enough := covers grant
  simp only [count_append, count_cons, count_nil] at enough ⊢
  omega

theorem covers_loss (left right grants : List α) (owner : α) (covers : Covers (left ++ owner :: right) grants) :
    Covers (left ++ right) (grants.erase owner) := by
  intro grant
  have enough := covers grant
  simp only [count_append, count_cons, count_erase] at enough ⊢
  by_cases same : (owner == grant) = true
  · omega
  · omega

theorem covers_erase (owners grants : List α) (grant : α) (covers : Covers owners grants) :
    Covers owners (grants.erase grant) :=
  fun _ => Nat.le_trans (erase_sublist.count_le _) (covers _)

theorem covers_absent (owners grants new : List α) (absent : ∀ grant ∈ new, grant ∉ grants)
    (owned : Covers owners new) (covers : Covers owners grants) : Covers owners (grants ++ new) := by
  intro grant
  rw [count_append]
  by_cases added : grant ∈ new
  · rw [count_eq_zero_of_not_mem (absent _ added), Nat.zero_add]
    exact owned _
  · rw [count_eq_zero_of_not_mem added]
    exact covers _

end Cover

end Codec.Lib
