import Mathlib.Data.List.Basic

set_option autoImplicit false

namespace Codec.Lib

open List

-- A packet filter table: chains of rules, some of which jump to another chain.
abbrev Chains (κ ρ : Type) := List (κ × List ρ)

section Rules

variable {κ ρ : Type} [DecidableEq κ] (table : Chains κ ρ)

def rulesAt (chain : κ) : Option (List ρ) := (table.find? (·.1 = chain)).map (·.2)

def editAt (chain : κ) (change : List ρ → List ρ) : Chains κ ρ :=
  table.map fun entry => if entry.1 = chain then (entry.1, change entry.2) else entry

def newChain (chain : κ) : Chains κ ρ := if (rulesAt table chain).isSome then table else table ++ [(chain, [])]

def flushChain (chain : κ) : Chains κ ρ := editAt table chain fun _ => []

variable (chain other : κ)

theorem rules_edit (change : List ρ → List ρ) : rulesAt (editAt table chain change) other =
      if other = chain then (rulesAt table chain).map change else rulesAt table other := by
  have found : ((fun entry : κ × List ρ => decide (entry.1 = other)) ∘
      fun entry => if entry.1 = chain then (entry.1, change entry.2) else entry) = fun entry => decide (entry.1 = other) := by
    funext entry
    simp only [Function.comp_apply, apply_ite _, ite_self]
  rw [rulesAt, editAt, find?_map, found, Option.map_map]
  by_cases same : other = chain
  · rw [if_pos same, rulesAt, same, Option.map_map]
    cases hit : table.find? _ with
    | none => rfl
    | some entry =>
      have own := find?_some hit
      rw [Option.map_some, Option.map_some, Function.comp_apply, if_pos (of_decide_eq_true own), Function.comp_apply]
  · rw [if_neg same, rulesAt]
    cases hit : table.find? _ with
    | none => rfl
    | some entry =>
      have own := find?_some hit
      have apart : ¬entry.1 = chain := fun equal => same ((of_decide_eq_true own).symm.trans equal)
      rw [Option.map_some, Option.map_some, Function.comp_apply, if_neg apart]

theorem rules_new : rulesAt (newChain table chain) other =
      if other = chain then some ((rulesAt table chain).getD []) else rulesAt table other := by
  rw [newChain]
  by_cases same : other = chain
  · rw [if_pos same, same]
    cases hit : rulesAt table _ with
    | some rules => rw [Option.isSome_some, if_pos rfl, hit, Option.getD_some]
    | none =>
      rw [Option.isSome_none, if_neg Bool.false_ne_true]
      rw [rulesAt, Option.map_eq_none_iff] at hit
      rw [rulesAt, find?_append, hit]
      simp
  · rw [if_neg same]
    split
    · rfl
    · rw [rulesAt, find?_append]
      simp [rulesAt, Ne.symm same]

theorem rules_flush : rulesAt (flushChain table chain) other =
      if other = chain then (rulesAt table chain).map fun _ => [] else rulesAt table other :=
  rules_edit _ _ _ fun _ => []

end Rules

section Jumps

variable {κ ρ : Type} [DecidableEq κ] [DecidableEq ρ] (jump : ρ → Option κ) (table : Chains κ ρ)

def Points (origin chain : κ) : Prop := ∃ rules, rulesAt table origin = some rules ∧ ∃ rule ∈ rules, jump rule = some chain

def referenced (chain : κ) : Bool :=
  table.any fun entry => ((rulesAt table entry.1).getD []).any fun rule => jump rule = some chain

def lands (rule : ρ) : Bool := (jump rule).all fun chain => (rulesAt table chain).isSome

def appendRule (chain : κ) (rule : ρ) : Chains κ ρ := if lands jump table rule then editAt table chain (· ++ [rule]) else table

def deleteRule (chain : κ) (rule : ρ) : Chains κ ρ := editAt table chain (·.erase rule)

def removeChain (chain : κ) : Chains κ ρ :=
  if (rulesAt table chain).any List.isEmpty && !referenced jump table chain then table.filter (·.1 ≠ chain) else table

def grow (chain up : κ) (rule : ρ) : Chains κ ρ := appendRule jump (newChain table chain) up rule

def prune (chain up : κ) (rule : ρ) : Chains κ ρ := removeChain jump (deleteRule (flushChain table chain) up rule) chain

omit [DecidableEq ρ] in
theorem referenced_iff (chain : κ) : referenced jump table chain = true ↔ ∃ origin, Points jump table origin chain := by
  simp only [referenced, any_eq_true, decide_eq_true_eq]
  constructor
  · intro ⟨entry, _, rule, inside, jumps⟩
    cases hit : rulesAt table _ with
    | none =>
      rw [hit] at inside
      cases inside
    | some rules =>
      rw [hit] at inside
      exact ⟨entry.1, rules, hit, rule, inside, jumps⟩
  · intro ⟨origin, rules, hit, rule, inside, jumps⟩
    obtain ⟨entry, found, same⟩ := Option.map_eq_some_iff.mp hit
    have own := find?_some found
    refine ⟨entry, mem_of_find?_eq_some found, rule, ?_, jumps⟩
    rw [of_decide_eq_true own, hit]
    exact inside

omit [DecidableEq ρ] in
theorem rules_remove_other (chain other : κ) (apart : other ≠ chain) :
    rulesAt (removeChain jump table chain) other = rulesAt table other := by
  rw [removeChain]
  split
  · rw [rulesAt, find?_filter, rulesAt]
    congr 2
    funext entry
    by_cases own : entry.1 = other
    · simp [own, apart]
    · simp [own]
  · rfl

omit [DecidableEq ρ] in
theorem rules_removed (chain : κ) (empty : ∀ rules, rulesAt table chain = some rules → rules = [])
    (free : ∀ origin, ¬Points jump table origin chain) : rulesAt (removeChain jump table chain) chain = none := by
  have unreferenced : referenced jump table chain = false := by
    apply eq_false_of_ne_true
    intro held
    obtain ⟨origin, points⟩ := (referenced_iff jump _ _).mp held
    exact free _ points
  rw [removeChain, unreferenced]
  cases hit : rulesAt table _ with
  | none =>
    rw [Option.any_none, Bool.false_and, if_neg Bool.false_ne_true]
    exact hit
  | some rules =>
    rw [empty _ hit]
    simp [rulesAt]

theorem rules_delete (chain other : κ) (rule : ρ) : rulesAt (deleteRule table chain rule) other =
      if other = chain then (rulesAt table chain).map (·.erase rule) else rulesAt table other :=
  rules_edit _ _ _ _

omit [DecidableEq ρ] in
theorem rules_append (chain other : κ) (rule : ρ) (lands : lands jump table rule = true) :
    rulesAt (appendRule jump table chain rule) other =
      if other = chain then (rulesAt table chain).map (· ++ [rule]) else rulesAt table other := by
  rw [appendRule, if_pos lands]
  exact rules_edit _ _ _ _

omit [DecidableEq ρ] in
theorem lands_plain (rule : ρ) (plain : jump rule = none) : lands jump table rule = true := by
  rw [lands, plain]
  rfl

omit [DecidableEq ρ] in
theorem append_points (chain : κ) (rule : ρ) (origin other : κ)
    (points : Points jump (appendRule jump table chain rule) origin other) :
    Points jump table origin other ∨ origin = chain ∧ jump rule = some other := by
  obtain ⟨rules, hit, one, inside, lands⟩ := points
  rw [appendRule] at hit
  split at hit
  · rw [rules_edit] at hit
    by_cases own : origin = chain
    · rw [if_pos own, Option.map_eq_some_iff] at hit
      obtain ⟨old, before, same⟩ := hit
      rw [← same] at inside
      rcases mem_append.mp inside with kept | new
      · exact .inl ⟨old, own ▸ before, one, kept, lands⟩
      · rw [mem_singleton.mp new] at lands
        exact .inr ⟨own, lands⟩
    · rw [if_neg own] at hit
      exact .inl ⟨rules, hit, one, inside, lands⟩
  · exact .inl ⟨rules, hit, one, inside, lands⟩

omit [DecidableEq ρ] in
theorem rules_grow (chain up other : κ) (rule : ρ) (apart : up ≠ chain) (jumps : jump rule = some chain) :
    rulesAt (grow jump table chain up rule) other = if other = chain then some ((rulesAt table chain).getD [])
      else if other = up then (rulesAt table up).map (· ++ [rule]) else rulesAt table other := by
  have landing : lands jump (newChain table chain) rule = true := by
    rw [lands, jumps, Option.all_some, rules_new, if_pos rfl]
    rfl
  rw [grow, rules_append jump _ up _ rule landing, rules_new, rules_new, if_neg apart]
  by_cases above : other = up
  · rw [if_pos above, above, if_neg apart, if_pos rfl]
  · rw [if_neg above, if_neg above]

theorem rules_prune_other (chain up other : κ) (rule : ρ) (apart : other ≠ chain) :
    rulesAt (prune jump table chain up rule) other =
      if other = up then (rulesAt table other).map (·.erase rule) else rulesAt table other := by
  rw [prune, rules_remove_other jump _ _ _ apart, rules_delete]
  by_cases above : other = up
  · rw [if_pos above, if_pos above, ← above, rules_flush, if_neg apart]
  · rw [if_neg above, if_neg above, rules_flush, if_neg apart]

variable (chain up : κ) (rule : ρ) (plan : List (κ × κ × ρ))

theorem rules_pruned (apart : up ≠ chain) (only : ∀ origin, Points jump table origin chain → origin = up)
    (once : ∀ rules, rulesAt table up = some rules → ∀ other ∈ rules.erase rule, jump other ≠ some chain) :
    rulesAt (prune jump table chain up rule) chain = none := by
  have bare : rulesAt (deleteRule (flushChain table chain) up rule) chain = (rulesAt table chain).map fun _ => [] := by
    rw [rules_delete, if_neg apart.symm, rules_flush, if_pos rfl]
  apply rules_removed
  · intro rules hit
    rw [bare, Option.map_eq_some_iff] at hit
    obtain ⟨_, _, same⟩ := hit
    exact same.symm
  · intro origin ⟨rules, hit, other, inside, jumps⟩
    by_cases own : origin = chain
    · rw [own, bare, Option.map_eq_some_iff] at hit
      obtain ⟨_, _, same⟩ := hit
      rw [← same] at inside
      cases inside
    · rw [rules_delete] at hit
      by_cases above : origin = up
      · rw [if_pos above, rules_flush, if_neg apart, Option.map_eq_some_iff] at hit
        obtain ⟨old, before, same⟩ := hit
        rw [← same] at inside
        exact once old before _ inside jumps
      · rw [if_neg above, rules_flush, if_neg own] at hit
        exact above (only _ ⟨rules, hit, other, inside, jumps⟩)

omit [DecidableEq ρ] in
theorem points_mono (next : Chains κ ρ) (origin chain : κ) (fewer : ∀ rules, rulesAt next origin = some rules →
      ∃ old, rulesAt table origin = some old ∧ ∀ rule ∈ rules, rule ∈ old)
    (points : Points jump next origin chain) : Points jump table origin chain := by
  obtain ⟨rules, hit, rule, inside, jumps⟩ := points
  obtain ⟨old, before, sub⟩ := fewer _ hit
  exact ⟨old, before, rule, sub rule inside, jumps⟩

omit [DecidableEq ρ] in
theorem rules_removed_sub (chain origin : κ) (rules : List ρ)
    (hit : rulesAt (removeChain jump table chain) origin = some rules) : rulesAt table origin = some rules := by
  by_cases own : origin = chain
  · rw [removeChain] at hit
    split at hit
    · rw [own, rulesAt, find?_filter, Option.map_eq_some_iff] at hit
      obtain ⟨entry, found, _⟩ := hit
      have both := find?_some found
      simp at both
    · exact hit
  · rw [rules_remove_other jump _ _ _ own] at hit
    exact hit

theorem rules_prune_sub (chain up origin : κ) (rule : ρ) (rules : List ρ)
    (hit : rulesAt (prune jump table chain up rule) origin = some rules) :
    ∃ old, rulesAt table origin = some old ∧ ∀ other ∈ rules, other ∈ old := by
  have kept := rules_removed_sub jump _ _ _ _ hit
  rw [rules_delete, rules_flush, rules_flush] at kept
  have flushed (place : κ) (left : List ρ)
      (found : (if place = chain then (rulesAt table chain).map fun _ => [] else rulesAt table place) = some left) :
      ∃ old, rulesAt table place = some old ∧ ∀ other ∈ left, other ∈ old := by
    by_cases own : place = chain
    · rw [if_pos own, Option.map_eq_some_iff] at found
      obtain ⟨old, before, same⟩ := found
      rw [own, ← same]
      exact ⟨old, before, fun _ absent => nomatch absent⟩
    · rw [if_neg own] at found
      exact ⟨left, found, fun _ inside => inside⟩
  by_cases above : origin = up
  · rw [if_pos above, Option.map_eq_some_iff] at kept
    obtain ⟨whole, before, same⟩ := kept
    obtain ⟨old, held, sub⟩ := flushed up _ before
    rw [above, ← same]
    exact ⟨old, held, fun other inside => sub _ (mem_of_mem_erase inside)⟩
  · rw [if_neg above] at kept
    exact flushed _ _ kept

theorem prune_points (origin other : κ)
    (points : Points jump (prune jump table chain up rule) origin other) : Points jump table origin other :=
  points_mono jump _ _ _ _ (fun _ hit => rules_prune_sub jump _ _ up _ rule _ hit) points

theorem pruned_free (apart : up ≠ chain) (only : ∀ origin, Points jump table origin chain → origin = up)
    (once : ∀ rules, rulesAt table up = some rules → ∀ other ∈ rules.erase rule, jump other ≠ some chain) (origin : κ) :
    ¬Points jump (prune jump table chain up rule) origin chain := by
  intro points
  have above := only _ (prune_points jump _ _ up rule _ _ points)
  obtain ⟨rules, hit, other, inside, jumps⟩ := points
  rw [above, rules_prune_other jump _ _ up up rule apart, if_pos rfl, Option.map_eq_some_iff] at hit
  obtain ⟨old, before, same⟩ := hit
  rw [← same] at inside
  exact once old before _ inside jumps

omit [DecidableEq ρ] in
theorem grow_points (chain up : κ) (rule : ρ) (apart : up ≠ chain) (jumps : jump rule = some chain) (origin other : κ)
    (points : Points jump (grow jump table chain up rule) origin other) :
    Points jump table origin other ∨ origin = up ∧ other = chain := by
  obtain ⟨rules, hit, one, inside, lands⟩ := points
  rw [rules_grow jump _ _ up _ rule apart jumps] at hit
  by_cases own : origin = chain
  · rw [if_pos own, Option.some.injEq] at hit
    cases before : rulesAt _ chain with
    | none =>
      rw [before] at hit
      rw [← hit] at inside
      cases inside
    | some old =>
      rw [before, Option.getD_some] at hit
      rw [own]
      exact .inl ⟨old, before, one, hit ▸ inside, lands⟩
  · rw [if_neg own] at hit
    by_cases above : origin = up
    · rw [if_pos above, Option.map_eq_some_iff] at hit
      obtain ⟨old, before, same⟩ := hit
      rw [← same] at inside
      rcases mem_append.mp inside with kept | new
      · exact .inl ⟨old, above ▸ before, one, kept, lands⟩
      · rw [mem_singleton.mp new, jumps] at lands
        exact .inr ⟨above, (Option.some.inj lands).symm⟩
    · rw [if_neg above] at hit
      exact .inl ⟨rules, hit, one, inside, lands⟩

def growAll (plan : List (κ × κ × ρ)) : Chains κ ρ :=
  plan.foldl (fun table item => grow jump table item.1 item.2.1 item.2.2) table

def pruneAll (plan : List (κ × κ × ρ)) : Chains κ ρ :=
  plan.foldl (fun table item => prune jump table item.1 item.2.1 item.2.2) table

def Within (next table : Chains κ ρ) : Prop :=
  ∀ chain rules, rulesAt next chain = some rules → ∃ old, rulesAt table chain = some old ∧ ∀ rule ∈ rules, rule ∈ old

omit [DecidableEq ρ] in
theorem within_refl : Within table table := fun _ rules hit => ⟨rules, hit, fun _ inside => inside⟩

omit [DecidableEq ρ] in
theorem within_trans (last next table : Chains κ ρ) (later : Within last next) (first : Within next table) :
    Within last table := by
  intro chain rules hit
  obtain ⟨middle, held, sub⟩ := later _ _ hit
  obtain ⟨old, before, within⟩ := first _ _ held
  exact ⟨old, before, fun rule inside => within rule (sub rule inside)⟩

omit [DecidableEq ρ] in
theorem within_points (next table : Chains κ ρ) (within : Within next table) (origin chain : κ)
    (points : Points jump next origin chain) : Points jump table origin chain :=
  points_mono jump _ next _ _ (within _) points

omit [DecidableEq ρ] in
theorem within_gone (next table : Chains κ ρ) (within : Within next table) (chain : κ)
    (gone : rulesAt table chain = none) : rulesAt next chain = none := by
  cases hit : rulesAt next _ with
  | none => rfl
  | some rules =>
    obtain ⟨old, before, _⟩ := within _ _ hit
    rw [gone] at before
    cases before

theorem prune_within : Within (prune jump table chain up rule) table :=
  fun _ _ hit => rules_prune_sub jump _ _ up _ rule _ hit

theorem prune_all_within : Within (pruneAll jump table plan) table := by
  induction plan generalizing table with
  | nil => exact within_refl _
  | cons item rest ih => exact within_trans _ _ _ (ih _) (prune_within jump _ _ _ _)

theorem prune_all_gone (apart : ∀ item ∈ plan, item.2.1 ≠ item.1)
    (free : ∀ item ∈ plan, ∀ origin, ¬Points jump table origin item.1) (item : κ × κ × ρ) (inside : item ∈ plan) :
    rulesAt (pruneAll jump table plan) item.1 = none := by
  induction plan generalizing table with
  | nil => cases inside
  | cons first rest ih =>
    have within := prune_within jump table first.1 first.2.1 first.2.2
    cases inside with
    | head =>
      apply within_gone _ _ (prune_all_within jump _ rest)
      apply rules_pruned jump _ _ _ _ (apart item mem_cons_self)
      · exact fun origin points => absurd points (free item mem_cons_self _)
      · intro rules hit other kept jumps
        exact free item mem_cons_self _ ⟨rules, hit, other, mem_of_mem_erase kept, jumps⟩
    | tail _ later =>
      apply ih _ (fun other member => apart _ (mem_cons_of_mem _ member)) _ later
      intro other member origin points
      exact free _ (mem_cons_of_mem _ member) _ (within_points jump _ _ within _ _ points)

theorem rules_prune_all (chain : κ) (apart : ∀ item ∈ plan, chain ≠ item.1 ∧ chain ≠ item.2.1) :
    rulesAt (pruneAll jump table plan) chain = rulesAt table chain := by
  induction plan generalizing table with
  | nil => rfl
  | cons item rest ih =>
    obtain ⟨outside, below⟩ := apart item mem_cons_self
    apply (ih _ fun other member => apart _ (mem_cons_of_mem _ member)).trans
    rw [rules_prune_other jump _ _ _ _ _ outside, if_neg below]

omit [DecidableEq ρ] in
theorem grow_all_points (plan : List (κ × κ × ρ)) (apart : ∀ item ∈ plan, item.2.1 ≠ item.1)
    (jumps : ∀ item ∈ plan, jump item.2.2 = some item.1) (origin chain : κ)
    (points : Points jump (growAll jump table plan) origin chain) :
    Points jump table origin chain ∨ ∃ item ∈ plan, item.2.1 = origin ∧ item.1 = chain := by
  induction plan generalizing table with
  | nil => exact .inl points
  | cons item rest ih =>
    rcases ih _
        (fun other member => apart _ (mem_cons_of_mem _ member))
        (fun other member => jumps _ (mem_cons_of_mem _ member)) points with before | ⟨other, member, same⟩
    · rcases grow_points jump _ _ _ _ (apart item mem_cons_self)
          (jumps item mem_cons_self) _ _ before with old | ⟨up, here⟩
      · exact .inl old
      · exact .inr ⟨item, mem_cons_self, up.symm, here.symm⟩
    · exact .inr ⟨other, mem_cons_of_mem _ member, same⟩

omit [DecidableEq ρ] in
theorem rules_grow_all (plan : List (κ × κ × ρ)) (chain : κ) (apart : ∀ item ∈ plan, item.2.1 ≠ item.1)
    (jumps : ∀ item ∈ plan, jump item.2.2 = some item.1) (outside : ∀ item ∈ plan, chain ≠ item.1) :
    rulesAt (growAll jump table plan) chain = (rulesAt table chain).map (· ++ (plan.filter (·.2.1 = chain)).map (·.2.2)) := by
  induction plan generalizing table with
  | nil => simp [growAll]
  | cons item rest ih =>
    apply (ih _ (fun other member => apart _ (mem_cons_of_mem _ member))
      (fun other member => jumps _ (mem_cons_of_mem _ member))
      fun other member => outside _ (mem_cons_of_mem _ member)).trans
    rw [rules_grow jump _ _ _ _ _ (apart item mem_cons_self)
      (jumps item mem_cons_self), if_neg (outside item mem_cons_self)]
    by_cases below : chain = item.2.1
    · simp [below, Option.map_map, Function.comp_def]
    · simp [below, Ne.symm _]

omit [DecidableEq ρ] in
theorem grow_all_append (first second : List (κ × κ × ρ)) :
    growAll jump table (first ++ second) = growAll jump (growAll jump table first) second := foldl_append

-- A chain that a plan creates, before anything is put under it.
omit [DecidableEq ρ] in
theorem rules_grown (plan : List (κ × κ × ρ)) (apart : ∀ item ∈ plan, item.2.1 ≠ item.1)
    (jumps : ∀ item ∈ plan, jump item.2.2 = some item.1)
    (ordered : plan.Pairwise fun first second => first.1 ≠ second.1 ∧ first.2.1 ≠ second.1)
    (item : κ × κ × ρ) (inside : item ∈ plan) (free : rulesAt table item.1 = none) :
    rulesAt (growAll jump table plan) item.1 = some ((plan.filter (·.2.1 = item.1)).map (·.2.2)) := by
  obtain ⟨before, behind, split⟩ := append_of_mem inside
  rw [split, pairwise_append, pairwise_cons] at ordered
  obtain ⟨_, ⟨later, _⟩, earlier⟩ := ordered
  have first (other : κ × κ × ρ) (member : other ∈ before) := earlier _ member item mem_cons_self
  have left (other : κ × κ × ρ) (member : other ∈ before) : other ∈ plan := split ▸ mem_append_left _ member
  have right (other : κ × κ × ρ) (member : other ∈ behind) : other ∈ plan :=
    split ▸ mem_append_right _ (mem_cons_of_mem item member)
  have none : rulesAt (growAll jump table before) item.1 = none := by
    rw [rules_grow_all jump _ _ _ (fun other member => apart _ (left _ member))
      (fun other member => jumps _ (left _ member)) fun other member => (first _ member).1.symm, free]
    rfl
  have here : rulesAt (grow jump (growAll jump table before) item.1 item.2.1 item.2.2) item.1 = some [] := by
    rw [rules_grow jump _ _ _ _ _ (apart item inside) (jumps item inside), if_pos rfl, none]
    rfl
  have empty : before.filter _ = [] :=
    filter_eq_nil_iff.mpr fun other member same => (first _ member).2 (of_decide_eq_true same)
  rw [split, grow_all_append]
  change rulesAt (growAll jump _ behind) _ = _
  rw [rules_grow_all jump _ _ _ (fun other member => apart _ (right _ member))
    (fun other member => jumps _ (right _ member)) fun other member => (later _ member).1, here]
  rw [filter_append, empty, nil_append, filter_cons_of_neg (by simpa using apart item inside)]
  rfl

def jumpsTo (origin chain : κ) : List ρ := ((rulesAt table origin).getD []).filter fun rule => jump rule = some chain

omit [DecidableEq ρ] in
theorem jumps_grow_all (plan : List (κ × κ × ρ)) (apart : ∀ item ∈ plan, item.2.1 ≠ item.1)
    (jumps : ∀ item ∈ plan, jump item.2.2 = some item.1) (origin chain : κ) (outside : ∀ item ∈ plan, chain ≠ item.1) :
    jumpsTo jump (growAll jump table plan) origin chain = jumpsTo jump table origin chain := by
  induction plan generalizing table with
  | nil => rfl
  | cons item rest ih =>
    apply (ih _ (fun other member => apart _ (mem_cons_of_mem _ member))
      (fun other member => jumps _ (mem_cons_of_mem _ member))
      fun other member => outside _ (mem_cons_of_mem _ member)).trans
    have skip : ¬jump item.2.2 = some chain := by
      rw [jumps item mem_cons_self, Option.some.injEq]
      exact (outside item mem_cons_self).symm
    rw [jumpsTo, rules_grow jump _ _ _ _ _ (apart item mem_cons_self)
      (jumps item mem_cons_self), jumpsTo]
    by_cases own : origin = item.1
    · rw [if_pos own, own, Option.getD_some]
    · rw [if_neg own]
      by_cases below : origin = item.2.1
      · rw [if_pos below, below]
        cases rulesAt table _ with
        | none => rfl
        | some rules => simp [skip]
      · rw [if_neg below]

theorem jumps_prune_all (jumps : ∀ item ∈ plan, jump item.2.2 = some item.1)
    (origin chain : κ) (outside : ∀ item ∈ plan, chain ≠ item.1 ∧ origin ≠ item.1) :
    jumpsTo jump (pruneAll jump table plan) origin chain = jumpsTo jump table origin chain := by
  induction plan generalizing table with
  | nil => rfl
  | cons item rest ih =>
    apply (ih _ (fun other member => jumps _ (mem_cons_of_mem _ member))
      fun other member => outside _ (mem_cons_of_mem _ member)).trans
    obtain ⟨apart, away⟩ := outside item mem_cons_self
    have skip : ¬jump item.2.2 = some chain := by
      rw [jumps item mem_cons_self, Option.some.injEq]
      exact apart.symm
    rw [jumpsTo, rules_prune_other jump _ _ _ _ _ away, jumpsTo]
    by_cases below : origin = item.2.1
    · rw [if_pos below]
      cases rulesAt _ origin with
      | none => rfl
      | some rules =>
        rw [Option.map_some, Option.getD_some, Option.getD_some, ← erase_filter, erase_of_not_mem]
        simp [skip]
    · rw [if_neg below]

theorem erase_last (origin chain : κ) (rule : ρ) (only : jumpsTo jump table origin chain = [rule]) (rules : List ρ)
    (hit : rulesAt table origin = some rules) (other : ρ) (inside : other ∈ rules.erase rule) : jump other ≠ some chain := by
  intro jumps
  rw [jumpsTo, hit, Option.getD_some] at only
  have kept : other ∈ (rules.erase rule).filter fun rule => jump rule = some _ :=
    mem_filter.mpr ⟨inside, decide_eq_true jumps⟩
  rw [← erase_filter, only, erase_cons_head] at kept
  cases kept

omit [DecidableEq ρ] in
theorem jumps_none (origin chain : κ) (free : ¬Points jump table origin chain) : jumpsTo jump table origin chain = [] := by
  rw [jumpsTo, filter_eq_nil_iff]
  intro rule inside same
  cases hit : rulesAt _ origin with
  | none =>
    rw [hit] at inside
    cases inside
  | some rules =>
    rw [hit] at inside
    exact free ⟨rules, hit, rule, inside, of_decide_eq_true same⟩

omit [DecidableEq ρ] in
theorem rules_grow_all_other (plan : List (κ × κ × ρ)) (chain : κ) (apart : ∀ item ∈ plan, item.2.1 ≠ item.1)
    (jumps : ∀ item ∈ plan, jump item.2.2 = some item.1) (outside : ∀ item ∈ plan, chain ≠ item.1 ∧ chain ≠ item.2.1) :
    rulesAt (growAll jump table plan) chain = rulesAt table chain := by
  have bare : plan.filter (·.2.1 = chain) = [] :=
    filter_eq_nil_iff.mpr fun item inside same => (outside item inside).2 (of_decide_eq_true same).symm
  rw [rules_grow_all jump _ plan _ apart jumps (fun item inside => (outside item inside).1), bare]
  cases rulesAt _ chain with
  | none => rfl
  | some rules => simp

omit [DecidableEq ρ] in
theorem jumps_append (chain : κ) (rule : ρ) (origin other : κ) (skip : jump rule ≠ some other) :
    jumpsTo jump (appendRule jump table chain rule) origin other = jumpsTo jump table origin other := by
  rw [appendRule]
  split
  · rw [jumpsTo, rules_edit, jumpsTo]
    by_cases own : origin = chain
    · rw [if_pos own, own]
      cases rulesAt _ chain with
      | none => rfl
      | some rules => simp [skip]
    · rw [if_neg own]
  · rfl

omit [DecidableEq ρ] in
theorem rules_append_other (chain other : κ) (rule : ρ) (apart : other ≠ chain) :
    rulesAt (appendRule jump table chain rule) other = rulesAt table other := by
  rw [appendRule]
  split
  · rw [rules_edit, if_neg apart]
  · rfl

theorem prune_all_there (chain : κ) (outside : ∀ item ∈ plan, chain ≠ item.1)
    (there : (rulesAt table chain).isSome) : (rulesAt (pruneAll jump table plan) chain).isSome := by
  induction plan generalizing table with
  | nil => exact there
  | cons item rest ih =>
    apply ih _ fun other member => outside _ (mem_cons_of_mem _ member)
    rw [rules_prune_other jump _ _ _ _ _ (outside item mem_cons_self)]
    split
    · rw [Option.isSome_map]
      exact there
    · exact there

end Jumps

end Codec.Lib
