import Codec.Fw.Chains

set_option autoImplicit false

namespace Codec.Fw

open Codec.Ems Codec.Lib

section Init

variable (fw : ChainFw)

theorem chain_apart (kind other : Kind) (differ : kind ≠ other) : fw.chain kind ≠ fw.chain other :=
  fun equal => differ (Chain.own.inj equal).1

section

variable (item : Chain × Chain × ChainRule)

include item

theorem mangle_plan_apart (inside : item ∈ manglePlan fw) : item.2.1 ≠ item.1 := by
  rw [mangle_plan_mem fw item inside]
  exact fun equal => nomatch equal

theorem mangle_plan_jumps (inside : item ∈ manglePlan fw) : item.2.2.jump = some item.1 := by
  rw [mangle_plan_mem fw item inside]
  rfl

theorem init_plan_apart (inside : item ∈ initPlan fw) : item.2.1 ≠ item.1 :=
  (init_plan_mem fw item inside).choose_spec.2.2.2

theorem init_plan_jumps (inside : item ∈ initPlan fw) :
    item.2.2.jump = some item.1 := (init_plan_mem fw item inside).choose_spec.2.2.1

end

theorem init_plan_ordered : (initPlan fw).Pairwise fun first second => first.1 ≠ second.1 ∧ first.2.1 ≠ second.1 := by
  simp [initPlan, ChainFw.chain]

theorem rules_init_mangle (chain : Chain) (apart : chain ≠ fw.chain .phydev) : rulesAt (initMangle fw) chain =
      (rulesAt fw.mangle chain).map (· ++ ((manglePlan fw).filter (·.2.1 = chain)).map (·.2.2)) := by
  have plain : lands _ (growAll ChainRule.jump fw.mangle (manglePlan fw)) _ = true :=
    lands_plain ChainRule.jump _ fw.markRule rfl
  rw [initMangle, rules_append _ _ _ _ _ plain, if_neg apart]
  apply rules_grow_all _ _ _ _ (mangle_plan_apart fw) (mangle_plan_jumps fw)
  intro item inside
  rw [mangle_plan_mem fw item inside]
  exact apart

theorem init_phydev (free : rulesAt fw.mangle (fw.chain .phydev) = none) :
    rulesAt (initMangle fw) (fw.chain .phydev) = some [fw.markRule] := by
  have grown := rules_grown _ _ _ (mangle_plan_apart fw) (mangle_plan_jumps fw)
    (List.pairwise_singleton _ _) _ List.mem_cons_self free
  have plain : lands _ (growAll ChainRule.jump fw.mangle (manglePlan fw)) _ = true :=
    lands_plain ChainRule.jump _ fw.markRule rfl
  rw [initMangle, rules_append _ _ _ _ _ plain, if_pos rfl, grown]
  rfl

theorem init_physdev (there : (rulesAt fw.mangle .prerouting).isSome)
    (free : ¬PointsTo fw.mangle .prerouting (fw.chain .phydev)) :
    jumpsIn (initMangle fw) .prerouting (fw.chain .phydev) = [fw.physdevRule fw.ifname] := by
  obtain ⟨rules, hit⟩ := Option.isSome_iff_exists.mp there
  have before := jumps_none _ _ _ _ free
  rw [jumpsTo, hit, Option.getD_some] at before
  have apart : Chain.prerouting ≠ fw.chain .phydev := by rintro ⟨⟩
  rw [jumpsIn, jumpsTo, rules_init_mangle fw _ apart, hit, Option.map_some, Option.getD_some,
    List.filter_append, before]
  simp [manglePlan, ChainRule.jump, ChainFw.physdevRule]

theorem init_mangle_points (kind : Kind) (origin : Chain) (free : ¬PointsTo fw.mangle origin (fw.chain kind))
    (points : PointsTo (initMangle fw) origin (fw.chain kind)) : kind = .phydev ∧ origin = .prerouting := by
  rcases append_points _ _ _ _ _ _ points with grown | ⟨_, none⟩
  · rcases grow_all_points _ _ _ (mangle_plan_apart fw) (mangle_plan_jumps fw) _ _ grown with
      old | ⟨item, inside, up, own⟩
    · exact absurd old free
    · rw [mangle_plan_mem fw item inside] at up own
      exact ⟨(Chain.own.inj own).1.symm, up.symm⟩
  · cases none

theorem rules_init (kind : Kind) (up : Chain) (rule : ChainRule) (inside : (fw.chain kind, up, rule) ∈ initPlan fw)
    (free : rulesAt fw.nat (fw.chain kind) = none) : rulesAt (growAll ChainRule.jump fw.nat (initPlan fw)) (fw.chain kind) =
      some (((initPlan fw).filter (·.2.1 = fw.chain kind)).map (·.2.2)) :=
  rules_grown _ _ _ (init_plan_apart fw) (init_plan_jumps fw) (init_plan_ordered fw)
    (fw.chain kind, up, rule) inside free

theorem rules_init_nat (chain : Chain) : rulesAt (initNat fw) chain = if chain = fw.chain .postPost then
        (rulesAt (growAll ChainRule.jump fw.nat (initPlan fw)) chain).map (· ++ [defaultRule])
      else rulesAt (growAll ChainRule.jump fw.nat (initPlan fw)) chain := by
  have plain : lands _ (growAll ChainRule.jump fw.nat (initPlan fw)) _ = true := lands_plain ChainRule.jump _ defaultRule rfl
  rw [initNat, rules_append _ _ _ _ _ plain]
  split
  · rename_i same
    rw [same]
  · rfl

theorem rules_above (up : Chain) (outside : ∀ kind, kind ≠ .phydev → up ≠ fw.chain kind) :
    rulesAt (initNat fw) up = (rulesAt fw.nat up).map (· ++ ((initPlan fw).filter (·.2.1 = up)).map (·.2.2)) := by
  rw [rules_init_nat, if_neg (outside _ (by decide))]
  apply rules_grow_all _ _ _ up (init_plan_apart fw) (init_plan_jumps fw)
  intro item inside
  obtain ⟨kind, own, parent, _⟩ := init_plan_mem fw item inside
  rw [own]
  apply outside
  intro same
  rw [same] at parent
  cases parent

theorem jumps_above (up : Chain) (kind : Kind) (outside : ∀ kind, kind ≠ .phydev → up ≠ fw.chain kind)
    (there : (rulesAt fw.nat up).isSome) (free : ¬PointsTo fw.nat up (fw.chain kind)) :
    jumpsIn (initNat fw) up (fw.chain kind) =
      (((initPlan fw).filter (·.2.1 = up)).map (·.2.2)).filter fun rule => rule.jump = some (fw.chain kind) := by
  have before := jumps_none _ _ up _ free
  obtain ⟨rules, hit⟩ := Option.isSome_iff_exists.mp there
  rw [jumpsTo, hit, Option.getD_some] at before
  rw [jumpsIn, jumpsTo, rules_above fw up outside, hit, Option.map_some, Option.getD_some, List.filter_append, before,
    List.nil_append]

theorem init_nat_points (kind : Kind) (origin : Chain) (free : ¬PointsTo fw.nat origin (fw.chain kind))
    (points : PointsTo (initNat fw) origin (fw.chain kind)) : kind.parent fw.mark = some origin := by
  rcases append_points _ _ _ _ _ _ points with grown | ⟨_, none⟩
  · rcases grow_all_points _ _ _ (init_plan_apart fw) (init_plan_jumps fw) _ _ grown with
      old | ⟨item, inside, up, own⟩
    · exact absurd old free
    · obtain ⟨other, same, parent, _⟩ := init_plan_mem fw item inside
      rw [← (Chain.own.inj (same.symm.trans own)).1, ← up]
      exact parent
  · cases none

def Kind.up : Kind → Kind
  | .postBlacklist => .phydevPost
  | .postAuthed => .phydevPost
  | .postWhitelist => .phydevPost
  | .postDefault => .phydevPost
  | .postPost => .phydevPost
  | _ => .phydevPre

theorem leaf_planned (leaf : Leaf) : (fw.chain leaf.kind, fw.chain leaf.kind.up, fw.inputJump leaf.kind) ∈ initPlan fw := by
  cases leaf <;> simp [initPlan, Leaf.kind, Kind.up]

theorem leaf_bare (leaf : Leaf) : (initPlan fw).filter (·.2.1 = fw.chain leaf.kind) = [] := by
  cases leaf <;> simp [initPlan, Leaf.kind, ChainFw.chain]

theorem leaf_apart (leaf : Leaf) (kind : Kind)
    (differ : kind = .phydev ∨ kind = .phydevPre ∨ kind = .phydevPost ∨ kind = .postPost) : leaf.kind ≠ kind := by
  rcases differ with same | same | same | same <;> rw [same] <;> cases leaf <;> decide

theorem init_leaf (leaf : Leaf) (free : rulesAt fw.nat (fw.chain leaf.kind) = none) :
    rulesAt (initNat fw) (fw.chain leaf.kind) = some (leafRules []) := by
  have apart := chain_apart fw _ _ (leaf_apart leaf .postPost (by simp))
  rw [rules_init_nat, if_neg apart, rules_init fw _ _ _ (leaf_planned fw leaf) free, leaf_bare fw leaf]
  rfl

theorem init_pre (free : rulesAt fw.nat (fw.chain .phydevPre) = none) : rulesAt (initNat fw) (fw.chain .phydevPre) = some
      [fw.inputJump .prePre, fw.inputJump .preMacBlack, fw.inputJump .preMacWhite, fw.inputJump .preDefault] := by
  rw [rules_init_nat, if_neg (chain_apart fw _ _ (by decide)),
    rules_init fw _ .pre _ List.mem_cons_self free]
  simp [initPlan, ChainFw.chain]

theorem init_post (free : rulesAt fw.nat (fw.chain .phydevPost) = none) : rulesAt (initNat fw) (fw.chain .phydevPost) = some
      [fw.inputJump .postBlacklist, fw.inputJump .postAuthed, fw.inputJump .postWhitelist, fw.inputJump .postDefault,
        fw.inputJump .postPost] := by
  rw [rules_init_nat, if_neg (chain_apart fw _ _ (by decide)),
    rules_init fw _ .post (fw.markedJump .phydevPost) (by simp [initPlan]) free]
  simp [initPlan, ChainFw.chain]

theorem init_last (free : rulesAt fw.nat (fw.chain .postPost) = none) :
    rulesAt (initNat fw) (fw.chain .postPost) = some [defaultRule] := by
  rw [rules_init_nat, if_pos rfl,
    rules_init fw _ (fw.chain .phydevPost) (fw.inputJump .postPost) (by simp [initPlan]) free]
  simp [initPlan, ChainFw.chain]

theorem init_pre_jump (there : (rulesAt fw.nat .pre).isSome) (free : ¬PointsTo fw.nat .pre (fw.chain .phydevPre)) :
    jumpsIn (initNat fw) .pre (fw.chain .phydevPre) = [fw.markedJump .phydevPre] := by
  rw [jumps_above fw .pre _ (fun _ _ equal => nomatch equal) there free]
  simp [initPlan, ChainFw.chain, ChainRule.jump, ChainFw.markedJump]

theorem init_post_jump (there : (rulesAt fw.nat .post).isSome) (free : ¬PointsTo fw.nat .post (fw.chain .phydevPost)) :
    jumpsIn (initNat fw) .post (fw.chain .phydevPost) = [fw.markedJump .phydevPost] := by
  rw [jumps_above fw .post _ (fun _ _ equal => nomatch equal) there free]
  simp [initPlan, ChainFw.chain, ChainRule.jump, ChainFw.markedJump]

end Init

theorem init_tree (fw : ChainFw) (marked : fw.mark = fw.id) (trace : NoTrace fw)
    (prerouting : (rulesAt fw.mangle .prerouting).isSome) (pre : (rulesAt fw.nat .pre).isSome)
    (post : (rulesAt fw.nat .post).isSome) : TreeFor fw.ifname (fwInitChains fw) := by
  have same (kind : Kind) : Chain.own kind fw.id = fw.chain kind := by rw [ChainFw.chain, marked]
  have gone (kind : Kind) := (trace kind).1
  have absent (kind : Kind) := (trace kind).2.1
  have loose (kind : Kind) := (trace kind).2.2
  simp only [same] at gone absent loose
  have phydev := init_phydev fw (gone _)
  have physdev := init_physdev fw prerouting (loose _ _).1
  have mangle (kind : Kind) (differ : kind ≠ .phydev) : rulesAt (initMangle fw) (fw.chain kind) = none := by
    rw [rules_init_mangle fw _ (chain_apart fw _ _ differ), gone kind]
    rfl
  have mangled (kind : Kind) (origin : Chain) := init_mangle_points fw kind _ (loose kind origin).1
  have nat : rulesAt (initNat fw) (fw.chain .phydev) = none := by
    rw [rules_above fw _ fun kind differ => (chain_apart fw _ _ differ).symm, absent _]
    rfl
  have preJump := init_pre_jump fw pre (loose _ .pre).2
  have postJump := init_post_jump fw post (loose _ _).2
  have preRules := init_pre fw (absent _)
  have postRules := init_post fw (absent _)
  have last := init_last fw (absent _)
  have leaves (leaf : Leaf) := init_leaf fw leaf (absent _)
  have natted (kind : Kind) (origin : Chain) := init_nat_points fw kind _ (loose kind origin).2
  rw [init_chains]
  generalize initMangle fw = newMangle at phydev physdev mangle mangled
  generalize initNat fw = newNat at nat preJump postJump preRules postRules last leaves natted
  exact
    { marked := marked
      phydev := phydev
      physdev := physdev
      mangle := mangle
      mangled := fun kind origin points => (mangled kind _ points).imp_right .inl
      preJump := preJump
      pre := preRules
      postJump := postJump
      post := postRules
      last := last
      leaves := fun leaf => ⟨[], leaves leaf⟩
      nat := nat
      natted := natted }

section Clean

variable (fw : ChainFw)

theorem clean_mangle_within : Within (cleanMangle fw) fw.mangle := prune_all_within _ _ _

theorem clean_nat_within : Within (cleanNat fw) fw.nat := by
  apply within_trans _ _ _ (prune_all_within _ _ _)
  apply within_trans _ _ _ (prune_all_within _ _ _)
  exact prune_all_within _ _ _

theorem clean_kept (trace : NoTrace fw) : NoTrace (fwUninitChains fw) := by
  have mangle := clean_mangle_within fw
  have nat := clean_nat_within fw
  rw [uninit_chains]
  generalize cleanMangle fw = newMangle at mangle
  generalize cleanNat fw = newNat at nat
  intro kind
  obtain ⟨gone, absent, loose⟩ := trace kind
  refine ⟨within_gone _ _ mangle _ gone, within_gone _ _ nat _ absent, ?_⟩
  intro origin
  exact ⟨fun points => (loose _).1 (within_points _ _ _ mangle _ _ points),
    fun points => (loose _).2 (within_points _ _ _ nat _ _ points)⟩

theorem clean_mangle_gone (tree : TreeFor fw.ifname fw) (loose : ¬PointsTo fw.mangle .lan (fw.chain .phydev)) :
    rulesAt (cleanMangle fw) (fw.chain .phydev) = none ∧ ∀ origin, ¬PointsTo (cleanMangle fw) origin (fw.chain .phydev) := by
  have apart : Chain.prerouting ≠ fw.chain .phydev := fun equal => nomatch equal
  have only (origin : Chain) (points : PointsTo fw.mangle origin (fw.chain .phydev)) : origin = .prerouting := by
    rcases (tree.mangled _ _ points).2 with same | same
    · exact same
    · exact absurd (same ▸ points) loose
  have once := erase_last _ _ _ _ _ tree.physdev
  exact ⟨rules_pruned _ _ _ _ _ apart only once,
    pruned_free _ _ _ _ _ apart only once⟩

theorem clean_physdev (ifname : Str) (tree : TreeFor ifname fw) (kind : Kind) (which : kind = .phydevPre ∨ kind = .phydevPost) :
    rulesAt (pruneAll ChainRule.jump fw.nat (physdevPlan fw)) (fw.chain kind) = none ∧
      ∀ origin, ¬PointsTo (pruneAll ChainRule.jump fw.nat (physdevPlan fw)) origin (fw.chain kind) := by
  let first := prune ChainRule.jump fw.nat (fw.chain .phydevPre) .pre (fw.markedJump .phydevPre)
  have within := prune_within ChainRule.jump first (fw.chain .phydevPost) .post (fw.markedJump .phydevPost)
  have under (kind : Kind) (origin up : Chain) (parent : kind.parent _ = some up)
      (points : PointsTo _ _ _) : origin = up :=
    Option.some.inj ((tree.natted kind _ points).symm.trans parent)
  rcases which with same | same
  · have apart : Chain.pre ≠ fw.chain .phydevPre := fun equal => nomatch equal
    have only (origin : Chain) := under .phydevPre origin .pre rfl
    have once := erase_last _ fw.nat .pre _ _ tree.preJump
    rw [same]
    constructor
    · exact within_gone _ _ within _ (rules_pruned _ _ _ _ _ apart only once)
    · intro origin points
      exact pruned_free _ _ _ _ _ apart only once _
        (within_points _ _ _ within _ _ points)
  · have apart : Chain.post ≠ fw.chain .phydevPost := fun equal => nomatch equal
    have only (origin : Chain) (points : PointsTo first _ _) : origin = .post :=
      under .phydevPost _ _ rfl (prune_points _ _ _ _ _ _ _ points)
    have kept : jumpsIn first .post (fw.chain .phydevPost) = [fw.markedJump .phydevPost] := by
      rw [← tree.postJump]
      apply jumps_prune_all _ _ [(fw.chain _, .pre, fw.markedJump _)]
      · intro item inside
        rw [List.mem_singleton.mp inside]
        rfl
      · intro item inside
        rw [List.mem_singleton.mp inside]
        exact ⟨chain_apart fw _ _ (by decide), fun equal => nomatch equal⟩
    have once := erase_last _ first _ _ _ kept
    rw [same]
    exact ⟨rules_pruned _ _ _ _ _ apart only once, pruned_free _ _ _ _ _ apart only once⟩

theorem leaf_kinds (kind : Kind) (own : kind ≠ .phydev) (pre : kind ≠ .phydevPre) (post : kind ≠ .phydevPost) :
    (fw.chain kind, fw.chain kind.up, fw.plainJump kind) ∈ leafPlan fw := by
  cases kind <;> first | contradiction | simp [leafPlan, Kind.up]

theorem clean_nat_gone (ifname : Str) (tree : TreeFor ifname fw) (kind : Kind) :
    rulesAt (cleanNat fw) (fw.chain kind) = none ∧ ∀ origin, ¬PointsTo (cleanNat fw) origin (fw.chain kind) := by
  let first := pruneAll ChainRule.jump fw.nat (physdevPlan fw)
  let second := pruneAll ChainRule.jump first (leafPlan fw)
  have start : Within first _ := prune_all_within _ _ _
  have later : Within second _ := prune_all_within _ _ _
  have last : Within _ _ := prune_all_within ChainRule.jump second (physdevPlan fw)
  have rest : Within _ _ := within_trans _ _ _ last later
  have physdev (kind : Kind) (which : kind = .phydevPre ∨ kind = .phydevPost) := clean_physdev fw _ tree kind which
  have free (kind up : Kind) (parent : kind.parent fw.mark = some (fw.chain up))
      (which : up = .phydevPre ∨ up = .phydevPost) (origin : Chain) : ¬PointsTo first origin (fw.chain kind) := by
    intro points
    have above := (tree.natted kind _ (within_points _ _ _ start _ _ points)).symm.trans parent
    obtain ⟨rules, hit, _⟩ := points
    rw [Option.some.inj above, (physdev up which).1] at hit
    cases hit
  have gone (kind : Kind) (own : kind ≠ .phydev) (pre : kind ≠ .phydevPre) (post : kind ≠ .phydevPost) :
      rulesAt second (fw.chain kind) = none := by
    apply prune_all_gone _ _ _ _ _ _ (leaf_kinds fw kind own pre post)
    · intro item member
      obtain ⟨kind, up, own, above, _, _, differ, _⟩ := leaf_plan_mem fw item member
      rw [own, above]
      exact chain_apart fw _ _ differ
    · intro item member
      obtain ⟨kind, up, own, _, parent, _, _, which⟩ := leaf_plan_mem fw item member
      rw [own]
      exact free kind up parent which
  by_cases own : kind = .phydev
  · rw [own]
    constructor
    · exact within_gone _ _ (within_trans _ _ _ rest start) _ tree.nat
    · intro origin points
      have parent := tree.natted _ _ (within_points _ _ _ (clean_nat_within fw) _ _ points)
      cases parent
  · by_cases which : kind = .phydevPre ∨ kind = .phydevPost
    · obtain ⟨none, loose⟩ := physdev kind which
      exact ⟨within_gone _ _ rest _ none, fun origin points =>
        loose _ (within_points _ _ _ rest _ _ points)⟩
    · obtain ⟨pre, post⟩ := not_or.mp which
      obtain ⟨other, up, same, _, parent, _, _, above⟩ := leaf_plan_mem fw _ (leaf_kinds fw kind own pre post)
      rw [← (Chain.own.inj same).1] at parent
      exact ⟨within_gone _ _ last _ (gone kind own pre post), fun origin points =>
        free kind up parent above _ (within_points _ _ _ rest _ _ points)⟩

theorem clean_trace (tree : TreeFor fw.ifname fw) (loose : ¬PointsTo fw.mangle .lan (fw.chain .phydev)) :
    NoTrace (fwUninitChains fw) := by
  have same (kind : Kind) : Chain.own kind fw.id = fw.chain kind := by rw [ChainFw.chain, tree.marked]
  have mangle := clean_mangle_within fw
  obtain ⟨gone, unreached⟩ := clean_mangle_gone fw tree loose
  have nat (kind : Kind) := clean_nat_gone fw _ tree kind
  rw [uninit_chains]
  generalize cleanMangle fw = newMangle at mangle gone unreached
  generalize cleanNat fw = newNat at nat
  intro kind
  rw [same]
  refine ⟨?_, (nat kind).1, fun origin => ⟨?_, (nat kind).2 _⟩⟩
  · by_cases own : kind = .phydev
    · rw [own]
      exact gone
    · exact within_gone _ _ mangle _ (tree.mangle kind own)
  · intro points
    obtain ⟨own, _⟩ := tree.mangled kind _ (within_points _ _ _ mangle _ _ points)
    rw [own] at points
    exact unreached _ points

end Clean

end Codec.Fw
