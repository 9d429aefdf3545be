import Codec.Fw.ChainSpec

set_option autoImplicit false

namespace Codec.Fw

open Codec.Ems Codec.Lib

section Others

variable (chain : Chain) (table : RuleTable)

theorem same_refl : SameFor chain table table := ⟨rfl, fun _ _ => rfl⟩

theorem same_trans (last next : RuleTable) (later : SameFor chain last next) (first : SameFor chain next table) :
    SameFor chain last table :=
  ⟨later.1.trans first.1, fun up which => (later.2 up which).trans (first.2 up which)⟩

theorem same_grow_all (plan : List (Chain × Chain × ChainRule)) (apart : ∀ item ∈ plan, item.2.1 ≠ item.1)
    (jumps : ∀ item ∈ plan, item.2.2.jump = some item.1) (outside : ∀ item ∈ plan, chain ≠ item.1 ∧ chain ≠ item.2.1) :
    SameFor chain (growAll ChainRule.jump table plan) table := by
  constructor
  · exact rules_grow_all_other _ _ plan _ apart jumps outside
  · intro up _
    exact jumps_grow_all _ _ plan apart jumps up _ fun item inside => (outside item inside).1

theorem same_append (place : Chain) (rule : ChainRule) (apart : chain ≠ place) (skip : rule.jump ≠ some chain) :
    SameFor chain (appendRule ChainRule.jump table place rule) table :=
  ⟨rules_append_other _ _ _ _ rule apart,
    fun up _ => jumps_append _ _ _ rule up _ skip⟩

theorem same_prune_all (plan : List (Chain × Chain × ChainRule)) (jumps : ∀ item ∈ plan, item.2.2.jump = some item.1)
    (outside : ∀ item ∈ plan, chain ≠ item.1 ∧ chain ≠ item.2.1)
    (below : ∀ item ∈ plan, item.1 ≠ .prerouting ∧ item.1 ≠ .pre ∧ item.1 ≠ .post) :
    SameFor chain (pruneAll ChainRule.jump table plan) table := by
  constructor
  · exact rules_prune_all _ _ plan _ outside
  · intro up which
    apply jumps_prune_all _ _ plan jumps
    intro item inside
    obtain ⟨prerouting, pre, post⟩ := below item inside
    refine ⟨(outside item inside).1, ?_⟩
    rcases which with same | same | same <;> rw [same]
    · exact prerouting.symm
    · exact pre.symm
    · exact post.symm

end Others

variable (fw : ChainFw) (kind : Kind) (mark : Nat) (event : ChainEvent)

theorem own_below : Chain.own kind mark ≠ .prerouting ∧ Chain.own kind mark ≠ .pre ∧ Chain.own kind mark ≠ .post := by simp

section Frames

variable (fw : ChainFw) (kind : Kind) (mark : Nat) (apart : mark ≠ fw.mark)

include apart

theorem other_chain (own : Kind) : Chain.own kind mark ≠ fw.chain own := fun equal => apart (Chain.own.inj equal).2

theorem init_others : SameFor (.own kind mark) (initMangle fw) fw.mangle ∧ SameFor (.own kind mark) (initNat fw) fw.nat := by
  have other := other_chain fw kind mark apart
  constructor
  · apply same_trans _ _ _ _ (same_append _ _ _ fw.markRule (other _) (fun equal => nomatch equal))
    apply same_grow_all _ _ _ (mangle_plan_apart fw) (mangle_plan_jumps fw)
    intro item inside
    rw [mangle_plan_mem fw item inside]
    exact ⟨other _, (own_below kind mark).1⟩
  · apply same_trans _ _ _ _ (same_append _ _ _ defaultRule (other _) (fun equal => nomatch equal))
    apply same_grow_all _ _ _ (init_plan_apart fw) (init_plan_jumps fw)
    intro item inside
    obtain ⟨own, same, parent, _⟩ := init_plan_mem fw item inside
    constructor
    · rw [same]
      exact other own
    · intro equal
      rw [← equal] at parent
      cases own <;> cases parent <;> exact apart rfl

theorem clean_others : SameFor (.own kind mark) (cleanMangle fw) fw.mangle ∧ SameFor (.own kind mark) (cleanNat fw) fw.nat := by
  have other := other_chain fw kind mark apart
  have physdev (table : RuleTable) : SameFor (.own kind mark) (pruneAll ChainRule.jump table (physdevPlan fw)) table := by
    apply same_prune_all
    · intro item inside
      exact (physdev_plan_mem fw item inside).choose_spec.2.2
    · intro item inside
      obtain ⟨own, same, up, _⟩ := physdev_plan_mem fw item inside
      rw [same]
      refine ⟨other own, ?_⟩
      rcases up with up | up <;> rw [up] <;> simp
    · intro item inside
      obtain ⟨own, same, _⟩ := physdev_plan_mem fw item inside
      rw [same]
      exact own_below own _
  constructor
  · apply same_prune_all
    · exact mangle_plan_jumps fw
    · intro item inside
      rw [mangle_plan_mem fw item inside]
      exact ⟨other _, (own_below kind mark).1⟩
    · intro item inside
      rw [mangle_plan_mem fw item inside]
      exact own_below _ _
  · apply same_trans _ _ _ _ (physdev _)
    apply same_trans _ _ _ _ _ (physdev _)
    apply same_prune_all
    · intro item inside
      obtain ⟨_, _, _, _, _, jumps, _⟩ := leaf_plan_mem fw item inside
      exact jumps
    · intro item inside
      obtain ⟨own, up, same, above, _⟩ := leaf_plan_mem fw item inside
      rw [same, above]
      exact ⟨other own, other up⟩
    · intro item inside
      obtain ⟨own, _, same, _⟩ := leaf_plan_mem fw item inside
      rw [same]
      exact own_below own _

theorem fill_others (leaf : Leaf × List Str) : SameFor (.own kind mark) (fillLeaf fw leaf).nat fw.nat := by
  constructor
  · rw [fillLeaf, rules_edit, if_neg (other_chain fw kind mark apart _)]
  · intro up which
    have above : up ≠ fw.chain leaf.1.kind := by
      rcases which with same | same | same <;> rw [same] <;> exact fun equal => nomatch equal
    rw [jumpsIn, jumpsTo, fillLeaf, rules_edit, if_neg above, jumpsIn, jumpsTo]

end Frames

section Wired

variable (fw : ChainFw)

def lanRule (id : Nat) : ChainRule := ⟨false, none, none, .jump (.own .phydev id)⟩

def lanPlan : List (Chain × Chain × ChainRule) := [(.lan, .prerouting, wiredRule)]

theorem detach_mangle : fwWiredNicAttach fw false = { fw with mangle := pruneAll ChainRule.jump fw.mangle lanPlan } := rfl

theorem attach_mangle : fwWiredNicAttach fw true = { fw with
      mangle := appendRule ChainRule.jump (growAll ChainRule.jump fw.mangle lanPlan) .lan (lanRule fw.id) } := rfl

variable (kind : Kind) (mark : Nat) (item : Chain × Chain × ChainRule)

theorem lan_plan_mem (inside : item ∈ lanPlan) : item = (.lan, .prerouting, wiredRule) := List.mem_singleton.mp inside

theorem lan_plan_apart (inside : item ∈ lanPlan) : item.2.1 ≠ item.1 := by
  rw [lan_plan_mem item inside]
  exact fun equal => nomatch equal

theorem lan_plan_jumps (inside : item ∈ lanPlan) : item.2.2.jump = some item.1 := by
  rw [lan_plan_mem item inside]
  rfl

theorem lan_plan_outside (inside : item ∈ lanPlan) : Chain.own kind mark ≠ item.1 ∧ Chain.own kind mark ≠ item.2.1 := by
  rw [lan_plan_mem item inside]
  simp

theorem detach_same (table : RuleTable) : SameFor (.own kind mark) (pruneAll ChainRule.jump table lanPlan) table := by
  apply same_prune_all _ _ _ lan_plan_jumps (lan_plan_outside kind mark)
  intro item inside
  rw [lan_plan_mem item inside]
  simp

theorem wired_others (attach : Bool) :
    rulesAt (nicReloadWired fw attach).mangle (.own kind mark) = rulesAt fw.mangle (.own kind mark) ∧
      (mark ≠ fw.id → SameFor (.own kind mark) (nicReloadWired fw attach).mangle fw.mangle) := by
  have before := detach_same kind mark fw.mangle
  rw [nicReloadWired, detach_mangle]
  split
  · rw [attach_mangle]
    have grown := same_grow_all _ (pruneAll ChainRule.jump fw.mangle lanPlan) _ lan_plan_apart
      lan_plan_jumps (lan_plan_outside kind mark)
    have both := same_trans _ _ _ _ grown before
    constructor
    · rw [rules_append_other ChainRule.jump _ .lan _ _ (by simp)]
      exact both.1
    · intro apart
      apply same_trans _ _ _ _ _ both
      apply same_append _ _ .lan _ (by simp)
      intro equal
      exact apart (Chain.own.inj (Option.some.inj equal)).2.symm
  · exact ⟨before.1, fun _ => before⟩

end Wired

structure ChainInv (fw : ChainFw) : Prop where
  positive : 0 < fw.id
  numbered : fw.mark = 0 ∨ fw.mark = fw.id
  prerouting : (rulesAt fw.mangle .prerouting).isSome
  pre : (rulesAt fw.nat .pre).isSome
  post : (rulesAt fw.nat .post).isSome
  settled : NoTrace fw ∨ fw.run = true ∧ ∃ ifname, TreeFor ifname fw

def Removable (fw : ChainFw) : Prop :=
  rulesAt fw.mangle (.own .phydev fw.id) = none ∨
    (∃ rule ∈ jumpsIn fw.mangle .prerouting (.own .phydev fw.id), rule.physdevIn = some fw.ifname) ∧
      jumpsIn fw.mangle .lan (.own .phydev fw.id) = []

def ChainsReady (fw : ChainFw) : ChainEvent → Prop
  | .reload _ => fw.run = true → rulesAt fw.mangle (.own .phydev fw.id) = none
  | .stop => fw.run = true → Removable fw
  | .clear => Removable fw
  | _ => True

instance (fw : ChainFw) : Decidable (Removable fw) := inferInstanceAs (Decidable (_ ∨ _))

instance (fw : ChainFw) (event : ChainEvent) : Decidable (ChainsReady fw event) := by
  rw [ChainsReady.eq_def]
  split <;> infer_instance

def Handled (event : ChainEvent) (fw : ChainFw) : Prop :=
  match event with
  | .reload _ => fw.run = true → Tree fw
  | .stop => NoTrace fw
  | .clear => NoTrace fw
  | _ => True

section Steps

variable (fw : ChainFw)

theorem tree_for_same (run : Bool) (name ifname : Str) (tree : TreeFor ifname fw) :
    TreeFor ifname { fw with run := run, ifname := name } :=
  { tree with }

theorem clean_inv (inv : ChainInv fw) (removable : Removable fw) :
    ChainInv (fwUninitChains fw) ∧ NoTrace (fwUninitChains fw) := by
  have trace : NoTrace (fwUninitChains fw) := by
    rcases inv.settled with none | ⟨_, ifname, tree⟩
    · exact clean_kept fw none
    · have same : fw.chain .phydev = .own .phydev fw.id := by rw [ChainFw.chain, tree.marked]
      rcases removable with absent | ⟨⟨rule, inside, named⟩, loose⟩
      · have there := tree.phydev
        rw [same, absent] at there
        cases there
      · rw [← same, tree.physdev, List.mem_singleton] at inside
        rw [inside] at named
        have equal : ifname = fw.ifname := Option.some.inj named
        rw [equal] at tree
        apply clean_trace fw tree
        rintro ⟨rules, hit, _, held, jumps⟩
        rw [jumpsIn, jumpsTo, ← same, hit, Option.getD_some, List.filter_eq_nil_iff] at loose
        exact loose _ held (decide_eq_true jumps)
  refine ⟨?_, trace⟩
  have prerouting : (rulesAt (cleanMangle fw) .prerouting).isSome := by
    apply prune_all_there _ _ _ _ _ inv.prerouting
    intro item inside
    rw [mangle_plan_mem fw item inside]
    exact (own_below _ _).1.symm
  have physdev (table : RuleTable) (up : Chain) (below : ∀ kind, up ≠ fw.chain kind) (there : (rulesAt table up).isSome) :
      (rulesAt (pruneAll ChainRule.jump table (physdevPlan fw)) up).isSome := by
    apply prune_all_there _ _ _ up _ there
    intro item inside
    obtain ⟨kind, own, _⟩ := physdev_plan_mem fw item inside
    rw [own]
    exact below kind
  have kept (up : Chain) (below : ∀ kind, up ≠ fw.chain kind) (there : (rulesAt fw.nat up).isSome) :
      (rulesAt (cleanNat fw) up).isSome := by
    apply physdev _ up below
    apply prune_all_there _ _ _ up _ (physdev _ up below there)
    intro item inside
    obtain ⟨kind, _, own, _⟩ := leaf_plan_mem fw item inside
    rw [own]
    exact below kind
  have pre := kept .pre (fun kind => (own_below kind _).2.1.symm) inv.pre
  have post := kept _ (fun kind => (own_below kind _).2.2.symm) inv.post
  rw [uninit_chains] at trace ⊢
  generalize cleanMangle fw = mangle at trace prerouting ⊢
  generalize cleanNat fw = nat at trace pre post ⊢
  exact ⟨inv.positive, inv.numbered, prerouting, pre, post, .inl trace⟩

variable (attach : Bool) (leaves : List (Leaf × List Str)) (leaf : Leaf × List Str)

theorem fill_points (origin chain : Chain)
    (points : PointsTo (fillLeaf fw leaf).nat origin chain) : PointsTo fw.nat origin chain := by
  obtain ⟨rules, hit, rule, inside, jumps⟩ := points
  rw [fillLeaf, rules_edit] at hit
  by_cases own : origin = fw.chain leaf.1.kind
  · rw [if_pos own, Option.map_eq_some_iff] at hit
    obtain ⟨_, _, same⟩ := hit
    rw [← same] at inside
    obtain ⟨text, _, plain⟩ := List.mem_map.mp inside
    rw [← plain] at jumps
    cases jumps
  · rw [if_neg own] at hit
    exact ⟨rules, hit, rule, inside, jumps⟩

theorem fill_trace (trace : NoTrace fw) : NoTrace (fillLeaf fw leaf) := by
  intro kind
  obtain ⟨gone, absent, loose⟩ := trace kind
  refine ⟨gone, ?_, fun origin => ⟨(loose _).1, fun points => (loose _).2 (fill_points fw leaf _ _ points)⟩⟩
  change rulesAt (editAt fw.nat _ fun _ => leafRules _) (.own kind fw.id) = none
  rw [rules_edit]
  split
  · rename_i same
    rw [← same, absent]
    rfl
  · exact absent

theorem fill_tree (ifname : Str) (tree : TreeFor ifname fw) : TreeFor ifname (fillLeaf fw leaf) := by
  have kept (chain : Chain) (apart : chain ≠ fw.chain leaf.1.kind) :
      rulesAt (fillLeaf fw leaf).nat chain = rulesAt fw.nat chain := by
    rw [fillLeaf, rules_edit, if_neg apart]
  have jumps (up : Chain) (kind : Kind) (apart : up ≠ fw.chain leaf.1.kind) :
      jumpsIn (fillLeaf fw leaf).nat up (fw.chain kind) = jumpsIn fw.nat up (fw.chain kind) := by
    rw [jumpsIn, jumpsTo, kept up apart, jumpsIn, jumpsTo]
  have apart (kind : Kind) (which : kind = .phydev ∨ kind = .phydevPre ∨ kind = .phydevPost ∨ kind = .postPost) :
      fw.chain kind ≠ fw.chain _ := chain_apart fw _ _ (leaf_apart leaf.1 kind which).symm
  have below := own_below leaf.1.kind fw.mark
  exact
    { marked := tree.marked
      phydev := tree.phydev
      physdev := tree.physdev
      mangle := tree.mangle
      mangled := tree.mangled
      preJump := (jumps .pre _ below.2.1.symm).trans tree.preJump
      pre := (kept _ (apart _ (by simp))).trans tree.pre
      postJump := (jumps _ _ below.2.2.symm).trans tree.postJump
      post := (kept _ (apart _ (by simp))).trans tree.post
      last := (kept _ (apart _ (by simp))).trans tree.last
      leaves := by
        intro other
        obtain ⟨texts, hit⟩ := tree.leaves _
        by_cases same : other.kind = leaf.1.kind
        · refine ⟨leaf.2, ?_⟩
          change rulesAt (editAt _ _ fun _ => leafRules _) (fw.chain _) = _
          rw [rules_edit, same, if_pos rfl, ← same, hit]
          rfl
        · exact ⟨texts, (kept _ (chain_apart fw _ _ same)).trans hit⟩
      nat := (kept _ (apart _ (by simp))).trans tree.nat
      natted := fun kind origin points => tree.natted kind _ (fill_points fw leaf _ _ points) }

theorem fill_inv (inv : ChainInv fw) : ChainInv (fillLeaf fw leaf) := by
  have below := own_below leaf.1.kind fw.mark
  have kept (up : Chain) (apart : up ≠ fw.chain leaf.1.kind) (there : (rulesAt fw.nat up).isSome) :
      (rulesAt (fillLeaf fw leaf).nat up).isSome := by
    rw [fillLeaf, rules_edit, if_neg apart]
    exact there
  refine ⟨inv.positive, inv.numbered, inv.prerouting, kept .pre below.2.1.symm inv.pre, kept _ below.2.2.symm inv.post, ?_⟩
  rcases inv.settled with none | ⟨runs, ifname, tree⟩
  · exact .inl (fill_trace fw leaf none)
  · exact .inr ⟨runs, ifname, fill_tree fw leaf _ tree⟩

theorem fills_inv (inv : ChainInv fw) : ChainInv (leaves.foldl fillLeaf fw) := by
  induction leaves generalizing fw with
  | nil => exact inv
  | cons leaf rest ih => exact ih _ (fill_inv fw leaf inv)

theorem fills_tree (ifname : Str) (tree : TreeFor ifname fw) : TreeFor ifname (leaves.foldl fillLeaf fw) := by
  induction leaves generalizing fw with
  | nil => exact tree
  | cons leaf rest ih => exact ih _ (fill_tree fw leaf _ tree)

theorem fills_frame : ∃ nat, leaves.foldl fillLeaf fw = { fw with nat := nat } ∧
      ∀ kind mark, mark ≠ fw.mark → SameFor (.own kind mark) nat fw.nat := by
  induction leaves generalizing fw with
  | nil => exact ⟨fw.nat, rfl, fun _ _ _ => same_refl _ _⟩
  | cons leaf rest ih =>
    obtain ⟨nat, same, others⟩ := ih _
    refine ⟨nat, same, ?_⟩
    intro kind mark apart
    exact same_trans _ _ _ _ (others kind mark apart) (fill_others fw kind mark apart leaf)

theorem init_inv (marked : fw.mark = fw.id) (inv : ChainInv fw) (running : fw.run = true)
    (absent : rulesAt fw.mangle (.own .phydev fw.id) = none) :
    ChainInv (fwInitChains fw) ∧ TreeFor fw.ifname (fwInitChains fw) := by
  have trace : NoTrace fw := by
    rcases inv.settled with none | ⟨_, ifname, tree⟩
    · exact none
    · have there := tree.phydev
      rw [ChainFw.chain, marked, absent] at there
      cases there
  have tree := init_tree fw marked trace inv.prerouting inv.pre inv.post
  have prerouting : (rulesAt (initMangle fw) .prerouting).isSome := by
    rw [rules_init_mangle fw _ (own_below _ _).1.symm, Option.isSome_map]
    exact inv.prerouting
  have pre : (rulesAt (initNat fw) .pre).isSome := by
    rw [rules_above fw .pre fun kind _ => (own_below kind _).2.1.symm, Option.isSome_map]
    exact inv.pre
  have post : (rulesAt (initNat fw) .post).isSome := by
    rw [rules_above fw _ fun kind _ => (own_below kind _).2.2.symm, Option.isSome_map]
    exact inv.post
  rw [init_chains] at tree ⊢
  generalize initMangle fw = mangle at tree prerouting ⊢
  generalize initNat fw = nat at tree pre post ⊢
  exact ⟨⟨inv.positive, inv.numbered, prerouting, pre, post, .inr ⟨running, fw.ifname, tree⟩⟩, tree⟩

theorem wired_points (kind : Kind) (origin : Chain) (attach : Bool)
    (points : PointsTo (nicReloadWired fw attach).mangle origin (.own kind fw.id)) :
    PointsTo fw.mangle origin (.own kind fw.id) ∨
      kind = .phydev ∧ origin = .lan ∧ (rulesAt fw.mangle (.own .phydev fw.id)).isSome := by
  have before (points : PointsTo _ origin (.own kind fw.id)) :=
    within_points _ _ _ (prune_all_within ChainRule.jump fw.mangle lanPlan) _ _ points
  rw [nicReloadWired, detach_mangle] at points
  split at points
  · rw [attach_mangle] at points
    by_cases there : (rulesAt fw.mangle (.own .phydev fw.id)).isSome = true
    · rcases append_points _ _ _ _ _ _ points with grown | ⟨up, jumps⟩
      · rcases grow_all_points _ _ _ lan_plan_apart lan_plan_jumps _ _ grown with
          old | ⟨item, inside, _, own⟩
        · exact .inl (before old)
        · exact absurd own.symm (lan_plan_outside kind _ item inside).1
      · exact .inr ⟨(Chain.own.inj (Option.some.inj jumps)).1.symm, up, there⟩
    · have grown : lands ChainRule.jump (growAll ChainRule.jump (pruneAll ChainRule.jump fw.mangle lanPlan) lanPlan)
          (lanRule fw.id) = false := by
        have same := same_trans _ _ _ _ (same_grow_all _ _
          _ lan_plan_apart lan_plan_jumps (lan_plan_outside _ _)) (detach_same .phydev fw.id fw.mangle)
        change (rulesAt _ _).isSome = false
        rw [same.1]
        exact eq_false_of_ne_true there
      rw [appendRule, grown, if_neg Bool.false_ne_true] at points
      rcases grow_all_points _ _ _ lan_plan_apart lan_plan_jumps _ _ points with
        old | ⟨item, inside, _, own⟩
      · exact .inl (before old)
      · exact absurd own.symm (lan_plan_outside kind _ item inside).1
  · exact .inl (before points)

theorem wired_frame : nicReloadWired fw attach = { fw with mangle := (nicReloadWired fw attach).mangle } := by
  rw [nicReloadWired, detach_mangle]
  split
  · rfl
  · rfl

theorem wired_prerouting (there : (rulesAt fw.mangle .prerouting).isSome) :
    (rulesAt (nicReloadWired fw attach).mangle .prerouting).isSome ∧
      ∀ kind mark, jumpsIn (nicReloadWired fw attach).mangle .prerouting (.own kind mark) =
        jumpsIn fw.mangle .prerouting (.own kind mark) := by
  have detached : (rulesAt (pruneAll ChainRule.jump fw.mangle lanPlan) .prerouting).isSome := by
    apply prune_all_there _ _ _ _ _ there
    intro item inside
    rw [lan_plan_mem item inside]
    simp
  have before (kind : Kind) (mark : Nat) := (detach_same kind mark fw.mangle).2 _ (.inl rfl)
  rw [nicReloadWired, detach_mangle]
  split
  · rw [attach_mangle]
    have grown := rules_grow_all _ (pruneAll ChainRule.jump fw.mangle lanPlan) _ .prerouting
      lan_plan_apart lan_plan_jumps (fun item inside => by rw [lan_plan_mem item inside]; simp)
    have kept := rules_append_other ChainRule.jump (growAll ChainRule.jump (pruneAll ChainRule.jump fw.mangle lanPlan) lanPlan)
      .lan .prerouting (lanRule fw.id) (by simp)
    constructor
    · rw [kept, grown, Option.isSome_map]
      exact detached
    · intro kind mark
      rw [← before kind mark, jumpsIn, jumpsTo, kept]
      exact jumps_grow_all _ _ _ lan_plan_apart lan_plan_jumps _ _
        fun item inside => (lan_plan_outside kind mark item inside).1
  · exact ⟨detached, before⟩

theorem wired_inv (inv : ChainInv fw) : ChainInv (nicReloadWired fw attach) := by
  obtain ⟨prerouting, jumps⟩ := wired_prerouting fw _ inv.prerouting
  have rules (kind : Kind) (mark : Nat) := (wired_others fw kind mark attach).1
  have points (kind : Kind) (origin : Chain) := wired_points fw kind origin attach
  rw [wired_frame]
  generalize (nicReloadWired fw _).mangle = mangle at prerouting jumps rules points
  refine ⟨inv.positive, inv.numbered, prerouting, inv.pre, inv.post, ?_⟩
  rcases inv.settled with none | ⟨runs, ifname, tree⟩
  · apply Or.inl
    intro kind
    obtain ⟨gone, absent, loose⟩ := none kind
    refine ⟨(rules kind _).trans gone, absent, fun origin => ⟨?_, (loose _).2⟩⟩
    intro held
    rcases points kind _ held with old | ⟨_, _, there⟩
    · exact (loose _).1 old
    · rw [(none _).1] at there
      cases there
  · apply Or.inr
    refine ⟨runs, ifname, ?_⟩
    have mangled (kind : Kind) (origin : Chain) (held : PointsTo mangle origin (fw.chain kind)) :
        kind = .phydev ∧ (origin = .prerouting ∨ origin = .lan) := by
      rw [ChainFw.chain, tree.marked] at held
      rcases points kind _ held with old | ⟨own, up, _⟩
      · apply tree.mangled kind _
        rw [ChainFw.chain, tree.marked]
        exact old
      · exact ⟨own, .inr up⟩
    exact
      { marked := tree.marked
        phydev := (rules _ _).trans tree.phydev
        physdev := (jumps _ _).trans tree.physdev
        mangle := fun kind differ => (rules kind _).trans (tree.mangle kind differ)
        mangled := mangled
        preJump := tree.preJump
        pre := tree.pre
        postJump := tree.postJump
        post := tree.post
        last := tree.last
        leaves := tree.leaves
        nat := tree.nat
        natted := tree.natted }

end Steps

theorem chain_step_id : (chainStep fw event).id = fw.id := by
  cases event with
  | start => rfl
  | stop =>
    rw [chainStep]
    split
    · rw [uninit_chains]
    · rfl
  | clear => rw [chainStep, uninit_chains]
  | reload leaves =>
    rw [chainStep]
    split
    · obtain ⟨nat, same, _⟩ := fills_frame _ _
      rw [fwRulesReload, same, init_chains]
    · rfl
  | config ifname => rfl
  | fill leaf texts => rfl
  | wired attach => rw [chainStep, wired_frame]

theorem chain_step_inv (inv : ChainInv fw) (ready : ChainsReady fw event) :
    ChainInv (chainStep fw event) ∧ Handled event (chainStep fw event) := by
  have renamed (run : Bool) (name : Str) (runs : fw.run = true → run = true) :
      ChainInv { fw with run := run, ifname := name } := by
    refine ⟨inv.positive, inv.numbered, inv.prerouting, inv.pre, inv.post, ?_⟩
    rcases inv.settled with none | ⟨running, ifname, tree⟩
    · exact .inl none
    · exact .inr ⟨runs running, ifname, tree_for_same fw run name _ tree⟩
  cases event with
  | start => exact ⟨renamed true _ fun _ => rfl, trivial⟩
  | stop =>
    rw [chainStep]
    split
    · rename_i running
      obtain ⟨cleaned, trace⟩ := clean_inv fw inv (ready running)
      rw [uninit_chains] at cleaned trace
      rw [uninit_chains]
      exact ⟨⟨cleaned.positive, cleaned.numbered, cleaned.prerouting, cleaned.pre, cleaned.post, .inl trace⟩, trace⟩
    · rename_i stopped
      rcases inv.settled with none | ⟨running, _⟩
      · exact ⟨inv, none⟩
      · exact absurd running stopped
  | clear => exact clean_inv fw inv ready
  | reload leaves =>
    rw [chainStep]
    split
    · rename_i running
      have marked : ChainInv { fw with mark := fw.id } := by
        refine ⟨inv.positive, .inr rfl, inv.prerouting, inv.pre, inv.post, ?_⟩
        rcases inv.settled with none | ⟨_, ifname, tree⟩
        · exact .inl none
        · have there := tree.phydev
          rw [ChainFw.chain, tree.marked, ready running] at there
          cases there
      obtain ⟨made, tree⟩ := init_inv _ rfl marked running (ready running)
      refine ⟨fills_inv _ _ made, fun _ => ?_⟩
      have filled := fills_tree _ leaves _ tree
      obtain ⟨nat, same, _⟩ := fills_frame _ _
      rw [Tree, fwRulesReload]
      rw [same, init_chains] at filled ⊢
      exact filled
    · rename_i stopped
      exact ⟨inv, fun running => absurd running stopped⟩
  | config ifname => exact ⟨renamed _ _ id, trivial⟩
  | fill leaf texts => exact ⟨fill_inv fw _ inv, trivial⟩
  | wired attach => exact ⟨wired_inv fw _ inv, trivial⟩

theorem init_frame (apart : mark ≠ fw.mark) : ∃ mangle nat, fwInitChains fw = { fw with mangle := mangle, nat := nat } ∧
      SameFor (.own kind mark) mangle fw.mangle ∧ SameFor (.own kind mark) nat fw.nat :=
  ⟨initMangle fw, initNat fw, init_chains fw, init_others fw kind mark apart⟩

theorem reload_others (leaves : List (Leaf × List Str)) (kind : Kind) (mark : Nat) (other : mark ≠ fw.id) :
    SameFor (.own kind mark) (fwRulesReload fw leaves).mangle fw.mangle ∧
      SameFor (.own kind mark) (fwRulesReload fw leaves).nat fw.nat := by
  obtain ⟨mangle, nat, made, first, second⟩ := init_frame { fw with mark := fw.id } kind mark other
  obtain ⟨filled, same, kept⟩ := fills_frame _ _
  rw [fwRulesReload, made, same]
  exact ⟨first, same_trans _ _ _ _ (kept kind mark other) second⟩

theorem uninit_others (apart : mark ≠ fw.mark) : SameFor (.own kind mark) (fwUninitChains fw).mangle fw.mangle ∧
      SameFor (.own kind mark) (fwUninitChains fw).nat fw.nat := by
  have both := clean_others fw kind mark apart
  rw [uninit_chains]
  generalize cleanMangle fw = mangle at both ⊢
  generalize cleanNat fw = nat at both ⊢
  exact both

theorem chain_step_others (numbered : fw.mark = 0 ∨ fw.mark = fw.id) : OthersKept fw (chainStep fw event) := by
  intro kind mark other positive
  have apart : mark ≠ fw.mark := by
    rcases numbered with same | same <;> rw [same]
    · exact positive
    · exact other
  have none (table : RuleTable) := same_refl (.own kind mark) table
  cases event with
  | start => exact ⟨none _, none _⟩
  | stop =>
    rw [chainStep]
    split
    · exact uninit_others _ kind mark apart
    · exact ⟨none _, none _⟩
  | clear => exact uninit_others fw kind mark apart
  | reload leaves =>
    rw [chainStep]
    split
    · exact reload_others fw _ kind mark other
    · exact ⟨none _, none _⟩
  | config ifname => exact ⟨none _, none _⟩
  | fill leaf texts => exact ⟨none _, fill_others fw kind mark apart _⟩
  | wired attach =>
    have wired := (wired_others fw kind mark attach).2 other
    rw [chainStep]
    rw [wired_frame] at wired ⊢
    exact ⟨wired, none _⟩

def Fresh (fw : ChainFw) : Prop :=
  fw.run = false ∧ 0 < fw.id ∧ fw.mark = 0 ∧ (rulesAt fw.mangle .prerouting).isSome ∧ (rulesAt fw.nat .pre).isSome ∧
    (rulesAt fw.nat .post).isSome ∧ NoTrace fw

theorem fresh_inv (fresh : Fresh fw) : ChainInv fw := by
  obtain ⟨_, positive, mark, prerouting, pre, post, trace⟩ := fresh
  exact ⟨positive, .inl mark, prerouting, pre, post, .inl trace⟩

theorem chain_run_inv (inv : ChainInv fw) (events : List ChainEvent) (steps : AllSteps chainStep ChainsReady fw events) :
    ChainInv (run chainStep fw events) ∧ (run chainStep fw events).id = fw.id ∧ OthersKept fw (run chainStep fw events) := by
  apply run_keeps _ _ (fun next => ChainInv next ∧ next.id = fw.id ∧ OthersKept fw next) fw _
  · exact ⟨inv, rfl, fun _ _ _ _ => ⟨same_refl _ _, same_refl _ _⟩⟩
  · intro next event ⟨held, same, others⟩ ready
    refine ⟨(chain_step_inv next _ held ready).1, (chain_step_id next _).trans same, ?_⟩
    intro kind mark other positive
    obtain ⟨mangle, nat⟩ := others kind mark other positive
    obtain ⟨first, second⟩ := chain_step_others next _ held.numbered kind mark (same ▸ other) positive
    exact ⟨same_trans _ _ _ _ first mangle, same_trans _ _ _ _ second nat⟩
  · exact steps

theorem chain_tree_kept (fw : ChainFw) (fresh : Fresh fw) (events : List ChainEvent) (last : ChainEvent)
    (steps : AllSteps chainStep ChainsReady fw (events ++ [last])) :
    Handled last (run chainStep fw (events ++ [last])) ∧ OthersKept fw (run chainStep fw (events ++ [last])) := by
  obtain ⟨before, ready⟩ := (all_steps_append _ _ fw _ _).mp steps
  obtain ⟨inv, _, _⟩ := chain_run_inv fw (fresh_inv fw fresh) _ before
  refine ⟨?_, (chain_run_inv fw (fresh_inv fw fresh) _ steps).2.2⟩
  rw [run_append]
  exact (chain_step_inv _ last inv ready.1).2

def freshSsid : ChainFw where
  run := false
  mark := 0
  id := 1
  ifname := [119, 48]
  mangle := [(.prerouting, [])]
  nat := [(.pre, []), (.post, [])]

theorem empty_table_free (table : RuleTable) (empty : ∀ entry ∈ table, entry.2 = []) (origin chain : Chain) :
    ¬PointsTo table origin chain := by
  intro ⟨rules, hit, rule, inside, _⟩
  obtain ⟨entry, found, same⟩ := Option.map_eq_some_iff.mp hit
  rw [← same, empty _ (List.mem_of_find?_eq_some found)] at inside
  cases inside

theorem fresh_ssid : Fresh freshSsid :=
  ⟨rfl, by decide, rfl, rfl, rfl, rfl, fun _ => ⟨rfl, rfl, fun origin =>
    ⟨empty_table_free _ (by decide) _ _, empty_table_free _ (by decide) _ _⟩⟩⟩

def reloadTwice : List ChainEvent := [.start, .reload [], .clear]

theorem chain_tree_kept_sample : Handled (.reload []) (run chainStep freshSsid (reloadTwice ++ [.reload []])) ∧
    OthersKept freshSsid (run chainStep freshSsid (reloadTwice ++ [.reload []])) :=
  chain_tree_kept _ fresh_ssid _ _ (by decide +kernel)

-- A configuration that renames the interface before the clear leaves the old
-- jump and its chain behind.
theorem renamed_interface_left : ¬∀ fw, Fresh fw → ∀ events last,
    Handled last (run chainStep fw (events ++ [last])) ∧ OthersKept fw (run chainStep fw (events ++ [last])) := by
  intro kept
  have trace : NoTrace _ := (kept _ fresh_ssid [.start, .reload [], .config [119, 49]] .clear).1
  exact absurd (trace .phydev).1 (by decide +kernel)

end Codec.Fw
