import Codec.Lib.Chains
import Codec.Lib.Runs
import Codec.Fw.Payload

set_option autoImplicit false

namespace Codec.Fw

open Codec.Ems Codec.Lib

-- The chains of one SSID; fw_chain puts the mark behind each name.
inductive Kind where
  | phydev
  | phydevPre
  | prePre
  | preMacBlack
  | preMacWhite
  | preDefault
  | phydevPost
  | postBlacklist
  | postAuthed
  | postWhitelist
  | postDefault
  | postPost
  deriving DecidableEq, Repr

inductive Leaf where
  | prePre
  | preMacBlack
  | preMacWhite
  | preDefault
  | postBlacklist
  | postAuthed
  | postWhitelist
  | postDefault
  deriving DecidableEq, Repr

def Leaf.kind : Leaf → Kind
  | .prePre => .prePre
  | .preMacBlack => .preMacBlack
  | .preMacWhite => .preMacWhite
  | .preDefault => .preDefault
  | .postBlacklist => .postBlacklist
  | .postAuthed => .postAuthed
  | .postWhitelist => .postWhitelist
  | .postDefault => .postDefault

inductive Chain where
  | prerouting
  | pre
  | post
  | lan
  | own (kind : Kind) (mark : Nat)
  deriving DecidableEq, Repr

inductive Target where
  | jump (chain : Chain)
  | setMark (mark : Nat)
  -- any other verdict, with its matches
  | plain (text : Str)
  deriving DecidableEq, Repr

-- `input` is -i core_gw_ifname().
structure ChainRule where
  input : Bool
  physdevIn : Option Str
  mark : Option Nat
  target : Target
  deriving DecidableEq, Repr

def ChainRule.jump (rule : ChainRule) : Option Chain :=
  match rule.target with
  | .jump chain => some chain
  | _ => none

abbrev RuleTable := Chains Chain ChainRule

-- What the firewall module of one SSID has to do with chains: the mark of
-- ems_fw, the id and the interface name of the SSID, and the two tables.
structure ChainFw where
  run : Bool
  mark : Nat
  id : Nat
  ifname : Str
  mangle : RuleTable
  nat : RuleTable
  deriving DecidableEq, Repr

namespace ChainFw

variable (fw : ChainFw)

def chain (kind : Kind) : Chain := .own kind fw.mark

def physdevRule (ifname : Str) : ChainRule := ⟨false, some ifname, none, .jump (fw.chain .phydev)⟩

def markRule : ChainRule := ⟨false, none, none, .setMark fw.mark⟩

def markedJump (kind : Kind) : ChainRule := ⟨true, none, some fw.mark, .jump (fw.chain kind)⟩

def inputJump (kind : Kind) : ChainRule := ⟨true, none, none, .jump (fw.chain kind)⟩

-- The jump that fw_clean_and_del deletes, without -i.
def plainJump (kind : Kind) : ChainRule := ⟨false, none, none, .jump (fw.chain kind)⟩

end ChainFw

def defaultRule : ChainRule := ⟨true, none, none, .plain [49, 50, 55, 46, 48, 46, 48, 46, 49, 48, 48]⟩

-- fw_create_chain: -N fails for a chain that is there, which is no failure.
def fwMangleCreateAndInsert (fw : ChainFw) : ChainFw :=
  let mangle := newChain fw.mangle (fw.chain .phydev)
  let mangle := appendRule ChainRule.jump mangle .prerouting (fw.physdevRule fw.ifname)
  { fw with mangle := appendRule ChainRule.jump mangle (fw.chain .phydev) fw.markRule }

def fwNatPhysdevCreateAndInsert (kind : Kind) (uplink : Chain) (fw : ChainFw) : ChainFw :=
  let nat := newChain fw.nat (fw.chain kind)
  { fw with nat := appendRule ChainRule.jump nat uplink (fw.markedJump kind) }

def fwNatCreateAndInsert (kind uplink : Kind) (fw : ChainFw) : ChainFw :=
  let nat := newChain fw.nat (fw.chain kind)
  { fw with nat := appendRule ChainRule.jump nat (fw.chain uplink) (fw.inputJump kind) }

def fwApplyDefaults (fw : ChainFw) : ChainFw :=
  { fw with nat := appendRule ChainRule.jump fw.nat (fw.chain .postPost) defaultRule }

def fwInitChains (fw : ChainFw) : ChainFw :=
  fwMangleCreateAndInsert fw
    |> fwNatPhysdevCreateAndInsert .phydevPre .pre
    |> fwNatCreateAndInsert .prePre .phydevPre
    |> fwNatCreateAndInsert .preMacBlack .phydevPre
    |> fwNatCreateAndInsert .preMacWhite .phydevPre
    |> fwNatCreateAndInsert .preDefault .phydevPre
    |> fwNatPhysdevCreateAndInsert .phydevPost .post
    |> fwNatCreateAndInsert .postBlacklist .phydevPost
    |> fwNatCreateAndInsert .postAuthed .phydevPost
    |> fwNatCreateAndInsert .postWhitelist .phydevPost
    |> fwNatCreateAndInsert .postDefault .phydevPost
    |> fwNatCreateAndInsert .postPost .phydevPost
    |> fwApplyDefaults

def fwCleanAndDel (kind uplink : Kind) (fw : ChainFw) : ChainFw :=
  let nat := flushChain fw.nat (fw.chain kind)
  let nat := deleteRule nat (fw.chain uplink) (fw.plainJump kind)
  { fw with nat := removeChain ChainRule.jump nat (fw.chain kind) }

def fwMangleClean (fw : ChainFw) : ChainFw :=
  let mangle := flushChain fw.mangle (fw.chain .phydev)
  let mangle := deleteRule mangle .prerouting (fw.physdevRule fw.ifname)
  { fw with mangle := removeChain ChainRule.jump mangle (fw.chain .phydev) }

def fwNatCleanPhysdev (kind : Kind) (uplink : Chain) (fw : ChainFw) : ChainFw :=
  let nat := flushChain fw.nat (fw.chain kind)
  let nat := deleteRule nat uplink (fw.markedJump kind)
  { fw with nat := removeChain ChainRule.jump nat (fw.chain kind) }

def fwUninitChains (fw : ChainFw) : ChainFw :=
  fwMangleClean fw
    |> fwNatCleanPhysdev .phydevPre .pre
    |> fwNatCleanPhysdev .phydevPost .post
    |> fwCleanAndDel .prePre .phydevPre
    |> fwCleanAndDel .preMacBlack .phydevPre
    |> fwCleanAndDel .preMacWhite .phydevPre
    |> fwCleanAndDel .preDefault .phydevPre
    |> fwCleanAndDel .postBlacklist .phydevPost
    |> fwCleanAndDel .postAuthed .phydevPost
    |> fwCleanAndDel .postWhitelist .phydevPost
    |> fwCleanAndDel .postDefault .phydevPost
    |> fwCleanAndDel .postPost .phydevPost
    |> fwNatCleanPhysdev .phydevPre .pre
    |> fwNatCleanPhysdev .phydevPost .post

def leafRules (texts : List Str) : List ChainRule := texts.map fun text => ⟨true, none, none, .plain text⟩

def fillLeaf (fw : ChainFw) (leaf : Leaf × List Str) : ChainFw :=
  { fw with nat := editAt fw.nat (fw.chain leaf.1.kind) fun _ => leafRules leaf.2 }

-- fw_rules_reload; `leaves` is what fw_update_all_rules makes of the leaves.
-- Its retries need a failing fw_create_chain, of which there is none.
def fwRulesReload (fw : ChainFw) (leaves : List (Leaf × List Str)) : ChainFw :=
  leaves.foldl fillLeaf (fwInitChains { fw with mark := fw.id })

def wiredRule : ChainRule := ⟨false, some [101, 116, 104, 48, 46, 49], none, .jump .lan⟩

def fwWiredNicAttach (fw : ChainFw) (attach : Bool) : ChainFw :=
  if attach then
    let mangle := newChain fw.mangle .lan
    let mangle := appendRule ChainRule.jump mangle .prerouting wiredRule
    { fw with mangle := appendRule ChainRule.jump mangle .lan ⟨false, none, none, .jump (.own .phydev fw.id)⟩ }
  else
    let mangle := flushChain fw.mangle .lan
    let mangle := deleteRule mangle .prerouting wiredRule
    { fw with mangle := removeChain ChainRule.jump mangle .lan }

def nicReloadWired (fw : ChainFw) (attach : Bool) : ChainFw :=
  let fw := fwWiredNicAttach fw false
  if fw.run ∧ attach then fwWiredNicAttach fw true else fw

-- The messages to the module, in any order, and what else happens to the SSID
-- and its chains.
inductive ChainEvent where
  | start
  | stop
  | clear
  | reload (leaves : List (Leaf × List Str))
  | config (ifname : Str)
  | fill (leaf : Leaf) (texts : List Str)
  | wired (attach : Bool)
  deriving DecidableEq, Repr

def chainStep (fw : ChainFw) : ChainEvent → ChainFw
  | .start => { fw with run := true }
  | .stop => if fw.run then fwUninitChains { fw with run := false } else fw
  | .clear => fwUninitChains fw
  | .reload leaves => if fw.run then fwRulesReload fw leaves else fw
  | .config ifname => { fw with ifname := ifname }
  | .fill leaf texts => fillLeaf fw (leaf, texts)
  | .wired attach => nicReloadWired fw attach

abbrev PointsTo (table : RuleTable) (origin chain : Chain) : Prop := Points ChainRule.jump table origin chain

abbrev jumpsIn (table : RuleTable) (origin chain : Chain) : List ChainRule := jumpsTo ChainRule.jump table origin chain

def Kind.parent (mark : Nat) : Kind → Option Chain
  | .phydev => none
  | .phydevPre => some .pre
  | .phydevPost => some .post
  | .prePre => some (.own .phydevPre mark)
  | .preMacBlack => some (.own .phydevPre mark)
  | .preMacWhite => some (.own .phydevPre mark)
  | .preDefault => some (.own .phydevPre mark)
  | .postBlacklist => some (.own .phydevPost mark)
  | .postAuthed => some (.own .phydevPost mark)
  | .postWhitelist => some (.own .phydevPost mark)
  | .postDefault => some (.own .phydevPost mark)
  | .postPost => some (.own .phydevPost mark)

structure TreeFor (ifname : Str) (fw : ChainFw) : Prop where
  marked : fw.mark = fw.id
  phydev : rulesAt fw.mangle (fw.chain .phydev) = some [fw.markRule]
  physdev : jumpsIn fw.mangle .prerouting (fw.chain .phydev) = [fw.physdevRule ifname]
  mangle : ∀ kind, kind ≠ .phydev → rulesAt fw.mangle (fw.chain kind) = none
  mangled : ∀ kind origin, PointsTo fw.mangle origin (fw.chain kind) →
    kind = .phydev ∧ (origin = .prerouting ∨ origin = .lan)
  preJump : jumpsIn fw.nat .pre (fw.chain .phydevPre) = [fw.markedJump .phydevPre]
  pre : rulesAt fw.nat (fw.chain .phydevPre) = some
    [fw.inputJump .prePre, fw.inputJump .preMacBlack, fw.inputJump .preMacWhite, fw.inputJump .preDefault]
  postJump : jumpsIn fw.nat .post (fw.chain .phydevPost) = [fw.markedJump .phydevPost]
  post : rulesAt fw.nat (fw.chain .phydevPost) = some
    [fw.inputJump .postBlacklist, fw.inputJump .postAuthed, fw.inputJump .postWhitelist, fw.inputJump .postDefault,
      fw.inputJump .postPost]
  last : rulesAt fw.nat (fw.chain .postPost) = some [defaultRule]
  leaves : ∀ leaf : Leaf, ∃ texts, rulesAt fw.nat (fw.chain leaf.kind) = some (leafRules texts)
  nat : rulesAt fw.nat (fw.chain .phydev) = none
  natted : ∀ kind origin, PointsTo fw.nat origin (fw.chain kind) → kind.parent fw.mark = some origin

def Tree (fw : ChainFw) : Prop := TreeFor fw.ifname fw

def NoTrace (fw : ChainFw) : Prop :=
  ∀ kind, rulesAt fw.mangle (.own kind fw.id) = none ∧ rulesAt fw.nat (.own kind fw.id) = none ∧
    ∀ origin, ¬PointsTo fw.mangle origin (.own kind fw.id) ∧ ¬PointsTo fw.nat origin (.own kind fw.id)

def SameFor (chain : Chain) (next table : RuleTable) : Prop :=
  rulesAt next chain = rulesAt table chain ∧
  ∀ up, up = .prerouting ∨ up = .pre ∨ up = .post → jumpsIn next up chain = jumpsIn table up chain

def OthersKept (fw next : ChainFw) : Prop :=
  ∀ kind mark, mark ≠ fw.id → mark ≠ 0 →
    SameFor (.own kind mark) next.mangle fw.mangle ∧ SameFor (.own kind mark) next.nat fw.nat

section Plans

variable (fw : ChainFw)

def manglePlan : List (Chain × Chain × ChainRule) := [(fw.chain .phydev, .prerouting, fw.physdevRule fw.ifname)]

def initPlan : List (Chain × Chain × ChainRule) :=
  [(fw.chain .phydevPre, .pre, fw.markedJump .phydevPre),
    (fw.chain .prePre, fw.chain .phydevPre, fw.inputJump .prePre),
    (fw.chain .preMacBlack, fw.chain .phydevPre, fw.inputJump .preMacBlack),
    (fw.chain .preMacWhite, fw.chain .phydevPre, fw.inputJump .preMacWhite),
    (fw.chain .preDefault, fw.chain .phydevPre, fw.inputJump .preDefault),
    (fw.chain .phydevPost, .post, fw.markedJump .phydevPost),
    (fw.chain .postBlacklist, fw.chain .phydevPost, fw.inputJump .postBlacklist),
    (fw.chain .postAuthed, fw.chain .phydevPost, fw.inputJump .postAuthed),
    (fw.chain .postWhitelist, fw.chain .phydevPost, fw.inputJump .postWhitelist),
    (fw.chain .postDefault, fw.chain .phydevPost, fw.inputJump .postDefault),
    (fw.chain .postPost, fw.chain .phydevPost, fw.inputJump .postPost)]

def physdevPlan : List (Chain × Chain × ChainRule) :=
  [(fw.chain .phydevPre, .pre, fw.markedJump .phydevPre), (fw.chain .phydevPost, .post, fw.markedJump .phydevPost)]

def leafPlan : List (Chain × Chain × ChainRule) :=
  [(fw.chain .prePre, fw.chain .phydevPre, fw.plainJump .prePre),
    (fw.chain .preMacBlack, fw.chain .phydevPre, fw.plainJump .preMacBlack),
    (fw.chain .preMacWhite, fw.chain .phydevPre, fw.plainJump .preMacWhite),
    (fw.chain .preDefault, fw.chain .phydevPre, fw.plainJump .preDefault),
    (fw.chain .postBlacklist, fw.chain .phydevPost, fw.plainJump .postBlacklist),
    (fw.chain .postAuthed, fw.chain .phydevPost, fw.plainJump .postAuthed),
    (fw.chain .postWhitelist, fw.chain .phydevPost, fw.plainJump .postWhitelist),
    (fw.chain .postDefault, fw.chain .phydevPost, fw.plainJump .postDefault),
    (fw.chain .postPost, fw.chain .phydevPost, fw.plainJump .postPost)]

def initMangle : RuleTable :=
  appendRule ChainRule.jump (growAll ChainRule.jump fw.mangle (manglePlan fw)) (fw.chain .phydev) fw.markRule

def initNat : RuleTable :=
  appendRule ChainRule.jump (growAll ChainRule.jump fw.nat (initPlan fw)) (fw.chain .postPost) defaultRule

def cleanMangle : RuleTable := pruneAll ChainRule.jump fw.mangle (manglePlan fw)

def cleanNat : RuleTable :=
  pruneAll ChainRule.jump (pruneAll ChainRule.jump (pruneAll ChainRule.jump fw.nat (physdevPlan fw)) (leafPlan fw))
    (physdevPlan fw)

theorem init_chains : fwInitChains fw = { fw with mangle := initMangle fw, nat := initNat fw } := by
  simp only [fwInitChains, fwMangleCreateAndInsert, fwNatPhysdevCreateAndInsert, fwNatCreateAndInsert, fwApplyDefaults,
    initMangle, initNat, ChainFw.chain, ChainFw.markedJump, ChainFw.inputJump, ChainFw.markRule, ChainFw.physdevRule,
    growAll, initPlan, manglePlan, List.foldl_cons, List.foldl_nil, grow]

theorem uninit_chains : fwUninitChains fw = { fw with mangle := cleanMangle fw, nat := cleanNat fw } := by
  simp only [fwUninitChains, fwMangleClean, fwNatCleanPhysdev, fwCleanAndDel, cleanMangle, cleanNat, pruneAll,
    physdevPlan, leafPlan, manglePlan, ChainFw.chain, ChainFw.markedJump, ChainFw.plainJump, ChainFw.physdevRule,
    List.foldl_cons, List.foldl_nil, prune]

section

variable (item : Chain × Chain × ChainRule)

include item

theorem mangle_plan_mem (inside : item ∈ manglePlan fw) :
    item = (fw.chain .phydev, .prerouting, fw.physdevRule fw.ifname) := List.mem_singleton.mp inside

theorem init_plan_mem (inside : item ∈ initPlan fw) :
    ∃ kind, item.1 = fw.chain kind ∧ kind.parent fw.mark = some item.2.1 ∧ item.2.2.jump = some item.1 ∧ item.2.1 ≠ item.1 := by
  simp only [initPlan, List.mem_cons, List.not_mem_nil, or_false] at inside
  rcases inside with same | same | same | same | same | same | same | same | same | same | same <;> rw [same] <;>
    exact ⟨_, rfl, rfl, rfl, by simp [ChainFw.chain]⟩

theorem physdev_plan_mem (inside : item ∈ physdevPlan fw) :
    ∃ kind, item.1 = fw.chain kind ∧ (item.2.1 = .pre ∨ item.2.1 = .post) ∧ item.2.2.jump = some item.1 := by
  simp only [physdevPlan, List.mem_cons, List.not_mem_nil, or_false] at inside
  rcases inside with same | same
  · rw [same]
    exact ⟨_, rfl, .inl rfl, rfl⟩
  · rw [same]
    exact ⟨_, rfl, .inr rfl, rfl⟩

theorem leaf_plan_mem (inside : item ∈ leafPlan fw) :
    ∃ kind up, item.1 = fw.chain kind ∧ item.2.1 = fw.chain up ∧ kind.parent fw.mark = some (fw.chain up) ∧
      item.2.2.jump = some item.1 ∧ up ≠ kind ∧ (up = .phydevPre ∨ up = .phydevPost) := by
  simp only [leafPlan, List.mem_cons, List.not_mem_nil, or_false] at inside
  rcases inside with same | same | same | same | same | same | same | same | same <;> rw [same] <;>
    exact ⟨_, _, rfl, rfl, rfl, rfl, by decide, by decide⟩

end

end Plans

end Codec.Fw
