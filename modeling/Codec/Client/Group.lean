import Codec.Client.Kv
import Codec.Fw.Payload

set_option autoImplicit false

namespace Codec.Client

open Codec.Ems Codec.Lib List
open Codec.Fw (emsAtoi)

inductive Leaf where
  | text (value : Str)
  | number (value : Int)
  | array (values : List Str)
  deriving DecidableEq, Repr

abbrev Group := List (Str × Leaf)

variable (groups : List (Str × Group)) (root : Str)

-- What grp_json_cfg is asked for with sub and ary; nobody asks for an array
-- without a sub.
inductive Part where
  | whole
  | array (sub : Str)
  | named (sub : Str)
  deriving DecidableEq, Repr

def Part.sub : Part → Option Str
  | .whole => none
  | .array sub => some sub
  | .named sub => some sub

structure Rule where
  root : Str
  part : Part
  deriving DecidableEq, Repr

-- An object of sections; `overrun` says that a byte past a key's end was read.
structure Cfg where
  groups : List (Str × Group)
  overrun : Bool
  deriving DecidableEq, Repr

def groupAt : Group := (groups.lookup root).getD []

def grpMatches (rule : Rule) (key : Str) : Bool :=
  rule.root.isPrefixOf key && rule.part.sub.all fun sub => (strstr sub key).isSome

-- key + len + 1. Of a key that is the root alone that is the byte behind its
-- NUL, where the text `past` stands.
def grpName (past : Str → Str) (root key : Str) : Str :=
  if key.length ≤ root.length then past key else key.drop (root.length + 1)

def grpFill (past : Str → Str) (root : Str) (lines : List (Str × Str)) (group : Group) : Group :=
  lines.foldl (fun group line => putEntry (grpName past root line.1) (.text line.2) group) group

def grpJsonCfg (past : Str → Str) (src : List (Str × Str)) (dst : Cfg) (rule : Rule) : Cfg :=
  let lines := src.filter fun line => grpMatches rule line.1
  let names := decide (∃ line ∈ lines, line.1.length ≤ rule.root.length)
  match rule.part with
  | .array sub =>
    { dst with groups := putEntry rule.root (putEntry sub (.array (lines.map Prod.snd)) (groupAt dst.groups rule.root)) dst.groups }
  | .whole => ⟨putEntry rule.root (grpFill past rule.root lines []) dst.groups, dst.overrun || names⟩
  | .named _ =>
    ⟨putEntry rule.root (grpFill past rule.root lines (groupAt dst.groups rule.root)) dst.groups, dst.overrun || names⟩

def Leaf.atoi : Leaf → Leaf
  | .text value => .number (emsAtoi value)
  | other => other

-- ems_json_key_atoi
def jsonKeyAtoi (group : Group) (key : Str) : Group :=
  match group.lookup key with
  | some leaf => putEntry key leaf.atoi group
  | none => group

def grpJsonUpdate (keys : List Str) : List (Str × Group) :=
  match groups.lookup root with
  | some group => putEntry root (keys.foldl jsonKeyAtoi group) groups
  | none => groups

def rootRules : List Rule :=
  [⟨ascii "client", .whole⟩, ⟨ascii "portal", .whole⟩, ⟨ascii "radius", .whole⟩, ⟨ascii "bwlist", .array (ascii "white")⟩,
    ⟨ascii "bwlist", .array (ascii "black")⟩, ⟨ascii "wireless", .whole⟩, ⟨ascii "system", .whole⟩, ⟨ascii "tunnel", .whole⟩,
    ⟨ascii "network", .whole⟩, ⟨ascii "http", .array (ascii "grey")⟩, ⟨ascii "http", .array (ascii "port")⟩,
    ⟨ascii "http", .array (ascii "cna")⟩, ⟨ascii "http", .array (ascii "url")⟩, ⟨ascii "http", .named (ascii "nas")⟩]

def numbers : List (Str × List Str) :=
  [(ascii "client", [ascii "upt_period", ascii "getconf_period", ascii "retry_period", ascii "enable_subdomain", ascii "autoupdate"]),
    (ascii "wireless", [ascii "stanum"]), (ascii "system", [ascii "ems_lan_free"]),
    (ascii "tunnel", [ascii "enable", ascii "port", ascii "heartbeat"]), (ascii "network", [ascii "escape"])]

def ssidName (id : Nat) (name : Str) : Str := ascii "ssid_" ++ digitText id ++ [95] ++ name

def ssidRules (id : Nat) : List Rule :=
  [⟨ssidName id (ascii "iface"), .whole⟩, ⟨ssidName id (ascii "portal"), .whole⟩, ⟨ssidName id (ascii "radius"), .whole⟩,
    ⟨ssidName id (ascii "bwlist"), .array (ascii "white")⟩, ⟨ssidName id (ascii "bwlist"), .array (ascii "black")⟩]

def ssidNum (src : List (Str × Str)) : Int := ((src.lookup (ascii "ssid_num")).map emsAtoi).getD 0

structure Grouped where
  root : Cfg
  ssid : Option (List Cfg)
  deriving DecidableEq, Repr

-- One object of grp_ssid_cfg, with a copy of the global http settings.
def grpSsid (past : Str → Str) (src : List (Str × Str)) (root : Cfg) (id : Nat) : Cfg :=
  let jobj := (ssidRules id).foldl (grpJsonCfg past src) ⟨[], false⟩
  { jobj with groups := putEntry (ssidName id (ascii "http")) (groupAt root.groups (ascii "http")) jobj.groups }

def grpSsidCfg (past : Str → Str) (src : List (Str × Str)) (root : Cfg) : Option (List Cfg) :=
  let num := ssidNum src
  if num ≤ 0 ∨ 3 < num then none else some ((List.range num.toNat).map fun i => grpSsid past src root (i + 1))

def grpAllCfgs (past : Str → Str) (src : List (Str × Str)) : Grouped :=
  let root := rootRules.foldl (grpJsonCfg past src) ⟨[], false⟩
  let root := { root with groups := numbers.foldl (fun groups group => grpJsonUpdate groups group.1 group.2) root.groups }
  ⟨root, grpSsidCfg past src root⟩

structure Section where
  root : Str
  subs : List Str
  fill : Option Part
  deriving DecidableEq, Repr

def Section.rules (sect : Section) : List Rule :=
  sect.subs.map (fun sub => ⟨sect.root, .array sub⟩) ++ sect.fill.toList.map fun part => ⟨sect.root, part⟩

def rootSections : List Section :=
  [⟨ascii "client", [], some .whole⟩, ⟨ascii "portal", [], some .whole⟩, ⟨ascii "radius", [], some .whole⟩,
    ⟨ascii "bwlist", [ascii "white", ascii "black"], none⟩, ⟨ascii "wireless", [], some .whole⟩,
    ⟨ascii "system", [], some .whole⟩, ⟨ascii "tunnel", [], some .whole⟩, ⟨ascii "network", [], some .whole⟩,
    ⟨ascii "http", [ascii "grey", ascii "port", ascii "cna", ascii "url"], some (.named (ascii "nas"))⟩]

def ssidSections (id : Nat) : List Section :=
  [⟨ssidName id (ascii "iface"), [], some .whole⟩, ⟨ssidName id (ascii "portal"), [], some .whole⟩,
    ⟨ssidName id (ascii "radius"), [], some .whole⟩, ⟨ssidName id (ascii "bwlist"), [ascii "white", ascii "black"], none⟩]

-- The key is section.name, or section.subsection with or without a name.
def names (sub : Option Str) (key : Str) : Bool :=
  match sub with
  | none => (root ++ [46]).isPrefixOf key
  | some sub => decide (key = root ++ 46 :: sub) || (root ++ 46 :: sub ++ [46]).isPrefixOf key

def leafOf (root name value : Str) : Leaf :=
  if name ∈ (numbers.lookup root).getD [] then .number (emsAtoi value) else .text value

def Section.leaf (sect : Section) (src : List (Str × Str)) (name : Str) : Option Leaf :=
  if name ∈ sect.subs then some (.array ((src.filter fun line => names sect.root (some name) line.1).map Prod.snd))
  else sect.fill.bind fun part =>
    if names sect.root part.sub (sect.root ++ 46 :: name) then (src.lookup (sect.root ++ 46 :: name)).map (leafOf sect.root name)
    else none

def Section.Holds (sect : Section) (src : List (Str × Str)) (groups : List (Str × Group)) : Prop :=
  ∀ name, (groupAt groups sect.root).lookup name = sect.leaf src name

def grpRead (rule : Rule) (line : Str × Str) : Option (Str × Leaf) :=
  let name := line.1.drop (rule.root.length + 1)
  if grpMatches rule line.1 ∧ rule.root.length < line.1.length then some (name, leafOf rule.root name line.2) else none

def ownRead (rule : Rule) (line : Str × Str) : Option (Str × Leaf) :=
  let name := line.1.drop (rule.root.length + 1)
  if names rule.root rule.part.sub line.1 then some (name, leafOf rule.root name line.2) else none

structure Section.Fine (sect : Section) (src : List (Str × Str)) : Prop where
  arrays : ∀ sub ∈ sect.subs, ∀ line ∈ src, grpMatches ⟨sect.root, .array sub⟩ line.1 = true →
    names sect.root (some sub) line.1 = true
  longer : ∀ part ∈ sect.fill, ∀ line ∈ src, grpMatches ⟨sect.root, part⟩ line.1 = true → sect.root.length < line.1.length
  lasts : ∀ part ∈ sect.fill, ∀ before line after, src = before ++ line :: after →
    ∀ name leaf, grpRead ⟨sect.root, part⟩ line = some (name, leaf) →
      name ∈ (after.filterMap (grpRead ⟨sect.root, part⟩)).map Prod.fst ∨ ownRead ⟨sect.root, part⟩ line = some (name, leaf) ∨
        ownRead ⟨sect.root, part⟩ line = none ∧ lastValue (before.filterMap (ownRead ⟨sect.root, part⟩)) name = some leaf

structure GroupsRight (sections : List Section) (more : List Str) (src : List (Str × Str)) (cfg : Cfg) : Prop where
  inside : cfg.overrun = false
  holds : ∀ sect ∈ sections, sect.Holds src cfg.groups
  alone : ∀ root, root ∉ sections.map Section.root → root ∉ more → cfg.groups.lookup root = none

def ssidIds (src : List (Str × Str)) : List Nat :=
  if ssidNum src ≤ 0 ∨ 3 < ssidNum src then [] else (List.range (ssidNum src).toNat).map (· + 1)

structure CfgsRight (src : List (Str × Str)) (out : Grouped) : Prop where
  root : GroupsRight rootSections [] src out.root
  count : out.ssid.map List.length = if ssidIds src = [] then none else some (ssidIds src).length
  ssid : ∀ pair ∈ (ssidIds src).zip (out.ssid.getD []),
    GroupsRight (ssidSections pair.1) [ssidName pair.1 (ascii "http")] src pair.2 ∧
      groupAt pair.2.groups (ssidName pair.1 (ascii "http")) = groupAt out.root.groups (ascii "http")

section Groups

variable (past : Str → Str) (src : List (Str × Str))

def ruleGroup (rule : Rule) (group : Group) : Group :=
  let lines := src.filter fun line => grpMatches rule line.1
  match rule.part with
  | .array sub => putEntry sub (.array (lines.map Prod.snd)) group
  | .whole => grpFill past rule.root lines []
  | .named _ => grpFill past rule.root lines group

theorem grp_group (dst : Cfg) (rule : Rule) (root : Str) : groupAt (grpJsonCfg past src dst rule).groups root =
      if root = rule.root then ruleGroup past src rule (groupAt dst.groups root) else groupAt dst.groups root := by
  have put (group : Group) : groupAt (putEntry rule.root group dst.groups) root =
      if root = rule.root then group else groupAt dst.groups root := by
    rw [groupAt, lookup_put]
    split
    · rfl
    · rfl
  rw [grpJsonCfg]
  by_cases same : root = rule.root
  · subst same
    cases part : rule.part <;> simp only [put, if_true, ruleGroup, part]
  · cases part : rule.part <;> simp only [put, if_neg same]

theorem rules_group (rules : List Rule) (dst : Cfg) (root : Str) : groupAt (rules.foldl (grpJsonCfg past src) dst).groups root =
      (rules.filter fun rule => decide (root = rule.root)).foldl (fun group rule => ruleGroup past src rule group)
        (groupAt dst.groups root) := by
  induction rules generalizing dst with
  | nil => rfl
  | cons rule rest ih =>
    rw [foldl_cons, ih, grp_group]
    by_cases same : root = rule.root
    · rw [if_pos same, filter_cons_of_pos (by simpa using same), foldl_cons]
    · rw [if_neg same, filter_cons_of_neg (by simpa using same)]

theorem arrays_lookup (root : Str) (subs : List Str) (group : Group) (name : Str) :
    ((subs.map fun sub => (⟨root, .array sub⟩ : Rule)).foldl (fun group rule => ruleGroup past src rule group) group).lookup name =
      if name ∈ subs then some (.array ((src.filter fun line => grpMatches ⟨root, .array name⟩ line.1).map Prod.snd))
      else group.lookup name := by
  induction subs generalizing group with
  | nil => rfl
  | cons sub rest ih =>
    rw [map_cons, foldl_cons, ih]
    by_cases later : name ∈ rest
    · rw [if_pos later, if_pos (mem_cons_of_mem sub later)]
    · rw [if_neg later, ruleGroup, lookup_put]
      by_cases same : name = sub
      · rw [if_pos same, if_pos (same ▸ mem_cons_self), same]
      · rw [if_neg same, if_neg (by simp [same, later])]

theorem fill_lookup (root : Str) (lines : List (Str × Str)) (group : Group) (name : Str)
    (longer : ∀ line ∈ lines, root.length < line.1.length) : (grpFill past root lines group).lookup name =
      (lastValue (lines.map fun line => (line.1.drop (root.length + 1), Leaf.text line.2)) name).or (group.lookup name) := by
  rw [← lookup_puts_last, foldl_map, grpFill]
  congr 1
  apply foldl_ext
  intro group line there
  rw [grpName, if_neg (Nat.not_le.mpr (longer line there))]

theorem atoi_atoi (leaf : Leaf) : leaf.atoi.atoi = leaf.atoi := by cases leaf <;> rfl

theorem atoi_lookup (keys : List Str) (group : Group) (name : Str) : (keys.foldl jsonKeyAtoi group).lookup name =
      (group.lookup name).map fun leaf => if name ∈ keys then leaf.atoi else leaf := by
  induction keys generalizing group with
  | nil => simp
  | cons key rest ih =>
    have one : (jsonKeyAtoi group key).lookup name = (group.lookup name).map fun leaf => if name = key then leaf.atoi else leaf := by
      rw [jsonKeyAtoi]
      by_cases same : name = key
      · cases found : group.lookup key with
        | none => simp [same, found]
        | some leaf => rw [lookup_put, if_pos same, same, found, Option.map_some, if_pos rfl]
      · simp only [if_neg same, Option.map_id']
        cases found : group.lookup key with
        | none => rfl
        | some leaf => rw [lookup_put, if_neg same]
    rw [foldl_cons, ih, one, Option.map_map]
    congr 1
    funext leaf
    by_cases same : name = key
    · subst same
      by_cases later : name ∈ rest
      · simp [Function.comp, later, atoi_atoi]
      · simp [Function.comp, later]
    · simp [Function.comp, same]

def Leaf.updated (root name : Str) (leaf : Leaf) : Leaf := if name ∈ (numbers.lookup root).getD [] then leaf.atoi else leaf

theorem atoi_empty (keys : List Str) : keys.foldl jsonKeyAtoi [] = [] := by
  induction keys with
  | nil => rfl
  | cons key rest ih => exact ih

theorem update_lookup (updates : List (Str × List Str)) (distinct : (updates.map Prod.fst).Nodup)
    (root name : Str) :
    (groupAt (updates.foldl (fun groups group => grpJsonUpdate groups group.1 group.2) groups) root).lookup name =
      ((groupAt groups root).lookup name).map fun leaf => if name ∈ (updates.lookup root).getD [] then leaf.atoi else leaf := by
  induction updates generalizing groups with
  | nil => simp
  | cons update rest ih =>
    obtain ⟨first, later⟩ := nodup_cons.mp distinct
    have one : groupAt (grpJsonUpdate groups update.1 update.2) root =
        if root = update.1 then update.2.foldl jsonKeyAtoi (groupAt groups root) else groupAt groups root := by
      rw [grpJsonUpdate]
      cases found : groups.lookup _ with
      | none =>
        by_cases same : root = update.1
        · rw [if_pos same, groupAt, same, found, Option.getD_none, atoi_empty]
        · rw [if_neg same]
      | some group =>
        rw [groupAt, lookup_put]
        by_cases same : root = update.1
        · rw [if_pos same, if_pos same, groupAt, same, found]
          rfl
        · rw [if_neg same, if_neg same]
          rfl
    rw [foldl_cons, ih _ later, one, lookup_entry]
    by_cases same : root = update.1
    · have absent : rest.lookup root = none := (lookup_absent rest root).mpr (same ▸ first)
      rw [if_pos same, if_pos same, atoi_lookup, absent]
      simp [Function.comp_def]
    · rw [if_neg same, if_neg same]

end Groups

section Reads

theorem last_map {ν μ : Type} (pairs : List (Str × ν)) (change : Str → ν → μ) (key : Str) :
    lastValue (pairs.map fun pair => (pair.1, change pair.1 pair.2)) key = (lastValue pairs key).map (change key) := by
  induction pairs with
  | nil => rfl
  | cons pair rest ih =>
    rw [map_cons, ← singleton_append, last_append, ih, last_single, ← singleton_append, last_append, last_single]
    by_cases same : key = pair.1
    · cases lastValue rest key <;> simp [same]
    · simp [if_neg same]

theorem last_distinct {ν : Type} (pairs : List (Str × ν)) (distinct : (pairs.map Prod.fst).Nodup) (key : Str) :
    lastValue pairs key = pairs.lookup key := by
  have first := lookup_puts_last pairs [] key
  have second := lookup_puts _ [] distinct key
  rw [lookup_nil, Option.or_none] at first second
  exact first.symm.trans second

theorem filter_values (lines : List (Str × Str)) (wide tight : Str → Bool) (inside : ∀ key, tight key = true → wide key = true) :
    (lines.filter fun line => wide line.1).map Prod.snd = (lines.filter fun line => tight line.1).map Prod.snd ↔
      ∀ line ∈ lines, wide line.1 = true → tight line.1 = true := by
  have part : (lines.filter fun line => tight _).Sublist _ := monotone_filter_right _ fun line => inside line.1
  constructor
  · intro same line there matched
    have size := congrArg length same
    rw [length_map, length_map] at size
    have equal := part.eq_of_length size.symm
    have member : line ∈ lines.filter fun line => wide _ := mem_filter.mpr ⟨there, matched⟩
    rw [← equal] at member
    exact (mem_filter.mp member).2
  · intro all
    have equal : lines.filter (fun line => wide line.1) = lines.filter fun line => tight line.1 := by
      apply filter_congr
      intro line there
      exact Bool.eq_iff_iff.mpr ⟨all line there, inside _⟩
    rw [equal]

variable (rule : Rule)

theorem names_matches (key : Str) (own : names rule.root rule.part.sub key = true) :
    grpMatches rule key = true ∧ rule.root.length < key.length := by
  have whole : ∃ rest, key = rule.root ++ 46 :: rest ∧ ∀ sub ∈ rule.part.sub, sub <+: rest := by
    cases part : rule.part.sub with
    | none =>
      rw [part, names] at own
      obtain ⟨rest, same⟩ := isPrefixOf_iff_prefix.mp own
      exact ⟨rest, by rw [← same, append_assoc]; rfl, nofun⟩
    | some sub =>
      rw [part, names, Bool.or_eq_true, decide_eq_true_eq] at own
      obtain same | longer := own
      · exact ⟨sub, same, fun other there => by cases there; exact prefix_rfl⟩
      · obtain ⟨rest, same⟩ := isPrefixOf_iff_prefix.mp longer
        refine ⟨sub ++ 46 :: rest, by rw [← same]; simp, fun other there => ?_⟩
        cases there
        exact prefix_append sub _
  obtain ⟨rest, same, subs⟩ := whole
  constructor
  · rw [grpMatches, Bool.and_eq_true, same]
    refine ⟨List.isPrefixOf_iff_prefix.mpr (prefix_append _ _), ?_⟩
    cases part : rule.part.sub with
    | none => rfl
    | some sub =>
      have inside : sub <:+: rule.root ++ 46 :: rest := by
        have tail : sub <:+: 46 :: rest := (subs sub part).isInfix.trans (suffix_cons 46 rest).isInfix
        exact tail.trans (suffix_append _ _).isInfix
      cases found : strstr sub _ with
      | none => exact absurd inside ((strstr_none_iff sub _).mp found)
      | some parts => rw [Option.all_some, found]; rfl
  · rw [same, length_append, length_cons]
    omega

theorem names_key (key : Str) (own : names rule.root rule.part.sub key = true) :
    key = rule.root ++ 46 :: key.drop (rule.root.length + 1) := by
  have start : rule.root ++ [46] <+: key := by
    cases part : rule.part.sub with
    | none =>
      rw [part, names] at own
      exact isPrefixOf_iff_prefix.mp own
    | some sub =>
      rw [part, names, Bool.or_eq_true, decide_eq_true_eq] at own
      obtain same | longer := own
      · exact ⟨sub, by rw [same, append_assoc]; rfl⟩
      · exact (prefix_append_right_inj _ |>.mpr ⟨sub ++ [46], rfl⟩ : rule.root ++ [46] <+: rule.root ++ ([46] ++ (sub ++ [46]))).trans
          (by simpa using isPrefixOf_iff_prefix.mp longer)
  obtain ⟨rest, same⟩ := start
  rw [← same, append_assoc, singleton_append]
  congr 2
  rw [drop_append]
  simp

theorem own_read (line : Str × Str) (name : Str) (leaf : Leaf) (own : ownRead rule line = some (name, leaf)) :
    ∃ other, grpRead rule line = some (name, other) := by
  rw [ownRead] at own
  split at own
  · rename_i named
    refine ⟨leaf, ?_⟩
    rw [grpRead, if_pos (names_matches rule _ named), own]
  · cases own

theorem own_last (src : List (Str × Str)) (name : Str) : lastValue (src.filterMap (ownRead rule)) name =
      if names rule.root rule.part.sub (rule.root ++ 46 :: name) then
        (lastValue src (rule.root ++ 46 :: name)).map (leafOf rule.root name) else none := by
  induction src with
  | nil => simp [lastValue]
  | cons line rest ih =>
    have next : lastValue (line :: rest) (rule.root ++ 46 :: name) =
        (lastValue rest (rule.root ++ 46 :: name)).or (lastValue [line] (rule.root ++ 46 :: name)) := by
      rw [← singleton_append, last_append]
    rw [next, last_single]
    by_cases own : names rule.root rule.part.sub line.1 = true
    · have key := names_key rule _ own
      have read : ownRead rule line = some (line.1.drop (rule.root.length + 1), leafOf rule.root (line.1.drop (rule.root.length + 1)) line.2) := by
        rw [ownRead, if_pos own]
      rw [filterMap_cons_some read, ← singleton_append, last_append, ih, last_single]
      by_cases same : name = line.1.drop (rule.root.length + 1)
      · have whole : rule.root ++ 46 :: name = line.1 := by rw [same, ← key]
        rw [whole, if_pos same, if_pos own, if_pos own, if_pos rfl, same]
        cases lastValue rest _ <;> rfl
      · have other : rule.root ++ 46 :: name ≠ line.1 := by
          intro equal
          rw [key] at equal
          exact same (cons.inj (append_cancel_left equal)).2
        rw [if_neg same, if_neg other, Option.or_none, Option.or_none]
    · have other (named : names rule.root rule.part.sub (rule.root ++ 46 :: name) = true) : rule.root ++ 46 :: name ≠ line.1 := by
        intro equal
        exact own (equal ▸ named)
      rw [filterMap_cons_none (by rw [ownRead, if_neg own]), ih]
      by_cases named : names rule.root rule.part.sub (rule.root ++ 46 :: name) = true
      · rw [if_pos named, if_pos named, if_neg (other named), Option.or_none]
      · rw [if_neg named, if_neg named]

theorem grp_reads (src : List (Str × Str))
    (longer : ∀ line ∈ src, grpMatches rule line.1 = true → rule.root.length < line.1.length) : src.filterMap (grpRead rule) =
      (src.filter fun line => grpMatches rule line.1).map fun line =>
        (line.1.drop (rule.root.length + 1), leafOf rule.root (line.1.drop (rule.root.length + 1)) line.2) := by
  induction src with
  | nil => rfl
  | cons line rest ih =>
    have later := ih fun other there => longer _ (mem_cons_of_mem line there)
    by_cases matched : grpMatches rule line.1 = true
    · rw [filter_cons_of_pos (by simpa using matched), map_cons, ← later]
      exact filterMap_cons_some (by rw [grpRead, if_pos ⟨matched, longer line mem_cons_self matched⟩])
    · rw [filter_cons_of_neg (by simpa using matched), ← later]
      exact filterMap_cons_none (by rw [grpRead, if_neg fun both => matched both.1])

end Reads

inductive Section.Tidy (sect : Section) : Prop where
  | arrays (none : sect.fill = none)
  | whole (fill : sect.fill = some .whole) (alone : sect.subs = [])
  | named (sub : Str) (fill : sect.fill = some (.named sub))
      (apart : ∀ key, grpMatches ⟨sect.root, .named sub⟩ key = true → key.drop (sect.root.length + 1) ∉ sect.subs)

section Sections

variable (past : Str → Str) (src : List (Str × Str))

theorem leaf_updated (root name value : Str) : (Leaf.text value).updated root name = leafOf root name value := by
  rw [Leaf.updated, leafOf]
  split
  · rfl
  · rfl

theorem array_updated (root name : Str) (values : List Str) : (Leaf.array values).updated root name = .array values := by
  rw [Leaf.updated]
  split
  · rfl
  · rfl

theorem filled (rule : Rule) (group : Group) (name : Str)
    (longer : ∀ line ∈ src, grpMatches rule line.1 = true → rule.root.length < line.1.length) :
    ((grpFill past rule.root (src.filter fun line => grpMatches rule line.1) group).lookup name).map (Leaf.updated rule.root name) =
      (lastValue (src.filterMap (grpRead rule)) name).or ((group.lookup name).map (Leaf.updated rule.root name)) := by
  have matched : ∀ line ∈ src.filter fun line => grpMatches rule _, rule.root.length < line.1.length := fun line there =>
    longer line (mem_filter.mp there).1 (mem_filter.mp there).2
  have read := last_map ((src.filter fun line => grpMatches rule line.1).map fun line => (line.1.drop (rule.root.length + 1), Leaf.text line.2))
    (Leaf.updated rule.root) name
  simp only [map_map, Function.comp_def, leaf_updated] at read
  rw [fill_lookup past _ _ _ name matched, grp_reads rule src longer, read, Option.map_or]

variable (sect : Section) (rules : List Rule)

theorem fill_apart (tidy : sect.Tidy) (part : Part) (fill : sect.fill = some part) (name : Str)
    (there : name ∈ sect.subs) : name ∉ (src.filterMap (grpRead ⟨sect.root, part⟩)).map Prod.fst := by
  intro inside
  obtain ⟨pair, among, same⟩ := mem_map.mp inside
  obtain ⟨line, _, read⟩ := mem_filterMap.mp among
  rw [grpRead] at read
  split at read
  · rename_i matched
    cases read
    cases tidy with
    | arrays none => rw [fill] at none; cases none
    | whole _ alone => rw [alone] at there; cases there
    | named sub sole apart =>
      rw [fill] at sole
      cases sole
      have head : line.1.drop _ = name := same
      exact apart _ matched.1 (head ▸ there)
  · cases read

theorem rules_lookup (tidy : sect.Tidy) (name : Str)
    (longer : ∀ part ∈ sect.fill, ∀ line ∈ src, grpMatches ⟨sect.root, part⟩ line.1 = true → sect.root.length < line.1.length) :
    ((sect.rules.foldl (fun group rule => ruleGroup past src rule group) []).lookup name).map (Leaf.updated sect.root name) =
      if name ∈ sect.subs then some (.array ((src.filter fun line => grpMatches ⟨sect.root, .array name⟩ line.1).map Prod.snd))
      else sect.fill.bind fun part => lastValue (src.filterMap (grpRead ⟨sect.root, part⟩)) name := by
  have arrays : ((sect.subs.map fun sub => (⟨sect.root, .array sub⟩ : Rule)).foldl _ []).lookup name =
      if name ∈ sect.subs then some _
      else none := arrays_lookup past src _ _ [] name
  rw [Section.rules, foldl_append]
  cases tidy with
  | arrays none =>
    rw [none, Option.toList_none, map_nil, foldl_nil, arrays]
    split
    · rw [Option.map_some, array_updated]
    · rfl
  | whole fill alone =>
    have read := filled past src _ [] name (longer _ fill)
    rw [lookup_nil, Option.map_none, Option.or_none] at read
    rw [fill, alone, Option.toList_some, map_singleton, foldl_cons, foldl_nil, ruleGroup, read,
      if_neg not_mem_nil, Option.bind_some]
  | named sub fill apart =>
    have read := filled past src _
      ((sect.subs.map fun sub => (⟨sect.root, .array sub⟩ : Rule)).foldl (fun group rule => ruleGroup past src rule group) []) name
      (longer _ fill)
    rw [fill, Option.toList_some, map_singleton, foldl_cons, foldl_nil, ruleGroup, read, arrays, Option.bind_some]
    by_cases there : name ∈ sect.subs
    · have absent := (last_absent _ name).mpr (fill_apart src sect (.named sub fill apart) _ fill name there)
      rw [if_pos there, if_pos there, absent, Option.none_or, Option.map_some, array_updated]
    · rw [if_neg there, if_neg there, Option.map_none, Option.or_none]

theorem section_holds (tidy : sect.Tidy) (distinct : (src.map Prod.fst).Nodup) (groups : List (Str × Group))
    (longer : ∀ part ∈ sect.fill, ∀ line ∈ src, grpMatches ⟨sect.root, part⟩ line.1 = true → sect.root.length < line.1.length)
    (made : ∀ name, (groupAt groups sect.root).lookup name =
      ((sect.rules.foldl (fun group rule => ruleGroup past src rule group) []).lookup name).map (Leaf.updated sect.root name)) :
    sect.Holds src groups ↔ sect.Fine src := by
  have own (name : Str) : sect.leaf src name =
      if name ∈ sect.subs then some (.array ((src.filter fun line => names sect.root (some name) line.1).map Prod.snd))
      else sect.fill.bind fun part => lastValue (src.filterMap (ownRead ⟨sect.root, part⟩)) name := by
    rw [Section.leaf]
    split
    · rfl
    · congr 1
      funext part
      rw [own_last, last_distinct src distinct]
  have values (sub : Str) := filter_values src _ (names _ (some sub))
    fun key named => (names_matches ⟨sect.root, .array sub⟩ key named).1
  have fills (part : Part) := readings_agree _ _ (own_read ⟨sect.root, part⟩) src
  have lookups : sect.Holds src groups ↔ ∀ name,
      (if name ∈ sect.subs then some (.array ((src.filter fun line => grpMatches ⟨sect.root, .array name⟩ line.1).map Prod.snd))
        else sect.fill.bind fun part => lastValue (src.filterMap (grpRead ⟨sect.root, part⟩)) name) =
      if name ∈ sect.subs then some (.array ((src.filter fun line => names sect.root (some name) line.1).map Prod.snd))
      else sect.fill.bind fun part => lastValue (src.filterMap (ownRead ⟨sect.root, part⟩)) name := by
    apply forall_congr'
    intro name
    rw [made, rules_lookup past src sect tidy name longer, own]
  rw [lookups]
  constructor
  · intro all
    refine ⟨fun sub there => ?_, longer, fun part fill => (fills part).mp fun name => ?_⟩
    · have same := all sub
      rw [if_pos there, if_pos there] at same
      exact (values sub).mp (Leaf.array.inj (Option.some.inj same))
    · by_cases there : name ∈ sect.subs
      · have absent := fill_apart src sect tidy part fill name there
        rw [(last_absent _ name).mpr absent, (last_absent _ name).mpr (part_absent _ _ (own_read _) src name absent)]
      · have same := all name
        rw [if_neg there, if_neg there, fill] at same
        exact same
  · intro fine name
    by_cases there : name ∈ sect.subs
    · rw [if_pos there, if_pos there, (values name).mpr (fine.arrays name there)]
    · rw [if_neg there, if_neg there]
      cases fill : sect.fill with
      | none => rfl
      | some part => exact (fills part).mpr (fine.lasts part fill) name

theorem rules_inside (dst : Cfg) : (rules.foldl (grpJsonCfg past src) dst).overrun = false ↔
      dst.overrun = false ∧ ∀ rule ∈ rules, (∀ sub, rule.part ≠ .array sub) →
        ∀ line ∈ src, grpMatches rule line.1 = true → rule.root.length < line.1.length := by
  induction rules generalizing dst with
  | nil => simp
  | cons rule rest ih =>
    have one : (grpJsonCfg past src dst rule).overrun = false ↔
        dst.overrun = false ∧ ((∀ sub, rule.part ≠ .array sub) →
          ∀ line ∈ src, grpMatches rule line.1 = true → rule.root.length < line.1.length) := by
      rw [grpJsonCfg]
      cases part : rule.part with
      | array sub => simp
      | whole => simp [and_imp]
      | named sub => simp [and_imp]
    rw [foldl_cons, ih, one, forall_mem_cons, and_assoc]

theorem rules_alone (dst : Cfg) (root : Str) (other : root ∉ rules.map Rule.root) :
    (rules.foldl (grpJsonCfg past src) dst).groups.lookup root = dst.groups.lookup root := by
  induction rules generalizing dst with
  | nil => rfl
  | cons rule rest ih =>
    rw [map_cons, mem_cons, not_or] at other
    rw [foldl_cons, ih _ other.2, grpJsonCfg]
    cases rule.part <;> simp only [lookup_put, if_neg other.1]

theorem rules_unknown (sections : List Section) (known : ∀ rule ∈ rules, ∃ sect ∈ sections, rule ∈ sect.rules)
    (root : Str) (other : root ∉ sections.map Section.root) : root ∉ rules.map Rule.root := by
  intro there
  obtain ⟨rule, member, same⟩ := mem_map.mp there
  obtain ⟨sect, ours, part⟩ := known rule member
  have named : rule.root = sect.root := by
    rw [Section.rules, mem_append] at part
    obtain array | fill := part
    · obtain ⟨sub, _, made⟩ := mem_map.mp array
      rw [← made]
    · obtain ⟨part, _, made⟩ := mem_map.mp fill
      rw [← made]
  exact other (mem_map.mpr ⟨sect, ours, named.symm.trans same⟩)

theorem groups_right (sections : List Section) (more : List Str) (cfg : Cfg) (distinct : (src.map Prod.fst).Nodup)
    (covers : ∀ sect ∈ sections, rules.filter (fun rule => decide (sect.root = rule.root)) = sect.rules)
    (known : ∀ rule ∈ rules, ∃ sect ∈ sections, rule ∈ sect.rules) (tidy : ∀ sect ∈ sections, sect.Tidy)
    (flag : cfg.overrun = (rules.foldl (grpJsonCfg past src) ⟨[], false⟩).overrun)
    (made : ∀ sect ∈ sections, ∀ name, (groupAt cfg.groups sect.root).lookup name =
      ((groupAt (rules.foldl (grpJsonCfg past src) ⟨[], false⟩).groups sect.root).lookup name).map (Leaf.updated sect.root name))
    (alone : ∀ root, root ∉ sections.map Section.root → root ∉ more → cfg.groups.lookup root = none) :
    GroupsRight sections more src cfg ↔ ∀ sect ∈ sections, sect.Fine src := by
  have inside : cfg.overrun = false ↔ ∀ sect ∈ sections, ∀ part ∈ sect.fill, ∀ line ∈ src,
      grpMatches ⟨sect.root, part⟩ line.1 = true → sect.root.length < line.1.length := by
    rw [flag, rules_inside, and_iff_right rfl]
    constructor
    · intro all sect there part fill
      have member : (⟨sect.root, part⟩ : Rule) ∈ rules := by
        have ours : (⟨sect.root, part⟩ : Rule) ∈ sect.rules := by
          rw [Section.rules, Option.mem_def.mp fill]
          exact mem_append_right _ (mem_singleton.mpr rfl)
        rw [← covers sect there] at ours
        exact (mem_filter.mp ours).1
      refine all _ member fun sub same => ?_
      cases tidy sect there with
      | arrays none => rw [none] at fill; cases fill
      | whole whole _ => rw [whole] at fill; cases fill; cases same
      | named _ named _ => rw [named] at fill; cases fill; cases same
    · intro all rule there other line among matched
      obtain ⟨sect, ours, member⟩ := known rule there
      rw [Section.rules, mem_append] at member
      obtain array | fill := member
      · obtain ⟨sub, _, same⟩ := mem_map.mp array
        exact absurd (same ▸ rfl) (other sub)
      · obtain ⟨part, filled, same⟩ := mem_map.mp fill
        subst same
        exact all sect ours part (Option.mem_toList.mp filled) line among matched
  have holds (sect : Section) (there : sect ∈ sections)
      (longer : ∀ part ∈ sect.fill, ∀ line ∈ src, grpMatches _ _ = true → sect.root.length < line.1.length) :=
    section_holds past src sect (tidy sect there) distinct _ longer fun name => by
      rw [made sect there, rules_group, covers sect there]
      rfl
  constructor
  · intro right sect there
    exact (holds sect there (inside.mp right.inside sect there)).mp (right.holds sect there)
  · intro fine
    exact ⟨inside.mpr fun sect there => (fine sect there).longer,
      fun sect there => (holds sect there (fine sect there).longer).mpr (fine sect there), alone⟩

end Sections

section Documents

theorem whole_tidy : Section.Tidy ⟨root, [], some .whole⟩ := .whole rfl rfl

theorem nas_apart (key : Str) (matched : grpMatches ⟨ascii "http", .named (ascii "nas")⟩ key = true) :
    key.drop 5 ∉ [ascii "grey", ascii "port", ascii "cna", ascii "url"] := by
  rw [grpMatches, Bool.and_eq_true] at matched
  obtain ⟨rest, same⟩ := isPrefixOf_iff_prefix.mp matched.1
  have part : ascii "nas" <:+: key := by
    by_contra absent
    have none := (strstr_none_iff _ key).mpr absent
    have found := matched.2
    rw [Part.sub, Option.all_some, none] at found
    cases found
  intro there
  cases rest with
  | nil =>
    rw [← same] at part
    revert part
    decide
  | cons byte name =>
    have tail : name ∈ [ascii "grey", ascii "port", ascii "cna", ascii "url"] := by
      rw [← same] at there
      exact there
    have letter : (115 : UInt8) ∈ key := part.subset (by decide)
    have mark : byte = 115 := by
      rw [← same] at letter
      obtain front | back := mem_append.mp letter
      · exact absurd front (by decide)
      · obtain here | later := mem_cons.mp back
        · exact here.symm
        · simp only [mem_cons, not_mem_nil, or_false] at tail
          obtain one | one | one | one := tail <;> exact absurd (one ▸ later) (by decide)
    rw [← same, mark] at part
    simp only [mem_cons, not_mem_nil, or_false] at tail
    revert part
    obtain one | one | one | one := tail <;> rw [one] <;> decide

theorem root_tidy : ∀ sect ∈ rootSections, sect.Tidy := by
  simp only [rootSections, forall_mem_cons]
  exact ⟨whole_tidy _, whole_tidy _, whole_tidy _, .arrays rfl, whole_tidy _, whole_tidy _, whole_tidy _, whole_tidy _,
    .named _ rfl nas_apart, nofun⟩

theorem ssid_tidy (id : Nat) : ∀ sect ∈ ssidSections id, sect.Tidy := by
  simp only [ssidSections, forall_mem_cons]
  exact ⟨whole_tidy _, whole_tidy _, whole_tidy _, .arrays rfl, nofun⟩

theorem root_covers : ∀ sect ∈ rootSections, rootRules.filter (fun rule => decide (sect.root = rule.root)) = sect.rules := by
  decide

theorem root_known : ∀ rule ∈ rootRules, ∃ sect ∈ rootSections, rule ∈ sect.rules := by decide

theorem ssid_covers : ∀ id ∈ [1, 2, 3], ∀ sect ∈ ssidSections id,
    (ssidRules id).filter (fun rule => decide (sect.root = rule.root)) = sect.rules := by
  decide

theorem ssid_known : ∀ id ∈ [1, 2, 3], ∀ rule ∈ ssidRules id, ∃ sect ∈ ssidSections id, rule ∈ sect.rules := by decide

theorem ssid_apart : ∀ id ∈ [1, 2, 3], ∀ sect ∈ ssidSections id,
    sect.root ≠ ssidName id (ascii "http") ∧ numbers.lookup sect.root = none := by
  decide

variable (past : Str → Str) (src : List (Str × Str))

theorem ssid_ids : ∀ id ∈ ssidIds src, id ∈ [1, 2, 3] := by
  intro id there
  rw [ssidIds] at there
  split at there
  · cases there
  · obtain ⟨i, inside, same⟩ := mem_map.mp there
    have bound := mem_range.mp inside
    have small : i = 0 ∨ i = 1 ∨ i = 2 := by omega
    obtain zero | one | two := small <;> subst same <;> simp_all

theorem update_alone (updates : List (Str × List Str)) (root : Str) (missing : groups.lookup root = none) :
    (updates.foldl (fun groups group => grpJsonUpdate groups group.1 group.2) groups).lookup root = none := by
  induction updates generalizing groups with
  | nil => exact missing
  | cons update rest ih =>
    rw [foldl_cons]
    apply ih
    rw [grpJsonUpdate]
    cases found : groups.lookup _ with
    | none => exact missing
    | some group =>
      have other : root ≠ update.1 := fun same => by rw [same, found] at missing; cases missing
      rw [lookup_put, if_neg other, missing]

theorem root_groups : (grpAllCfgs past src).root.groups =
      numbers.foldl (fun groups group => grpJsonUpdate groups group.1 group.2) (rootRules.foldl (grpJsonCfg past src) ⟨[], false⟩).groups := by
  dsimp only [grpAllCfgs]

theorem root_overrun : (grpAllCfgs past src).root.overrun = (rootRules.foldl (grpJsonCfg past src) ⟨[], false⟩).overrun := by
  dsimp only [grpAllCfgs]

theorem root_right (distinct : (src.map Prod.fst).Nodup) :
    GroupsRight rootSections [] src (grpAllCfgs past src).root ↔ ∀ sect ∈ rootSections, sect.Fine src := by
  refine groups_right past src _ _ [] _ distinct root_covers root_known root_tidy
    (root_overrun past src) ?_ ?_
  · intro sect there name
    rw [root_groups, update_lookup _ _ (by decide)]
    rfl
  · intro root other _
    rw [root_groups]
    apply update_alone
    rw [rules_alone past src _ _ root (rules_unknown _ _ root_known root other)]
    rfl

theorem ssid_http (root : Cfg) (id : Nat) :
    groupAt (grpSsid past src root id).groups (ssidName id (ascii "http")) = groupAt root.groups (ascii "http") := by
  rw [grpSsid, groupAt, lookup_put, if_pos rfl, Option.getD_some]

theorem ssid_right (root : Cfg) (id : Nat) (few : id ∈ [1, 2, 3]) (distinct : (src.map Prod.fst).Nodup) :
    GroupsRight (ssidSections id) [ssidName id (ascii "http")] src (grpSsid past src root id) ↔
      ∀ sect ∈ ssidSections id, sect.Fine src := by
  refine groups_right past src _ _ _ _ distinct (ssid_covers id few) (ssid_known id few) (ssid_tidy id)
    rfl ?_ ?_
  · intro sect there name
    obtain ⟨other, plain⟩ := ssid_apart id few sect there
    have same : Leaf.updated sect.root name = fun leaf => leaf := by
      funext leaf
      rw [Leaf.updated, plain]
      rfl
    rw [same, Option.map_id', grpSsid, groupAt, lookup_put, if_neg other, groupAt]
  · intro other unknown apart
    rw [grpSsid, lookup_put, if_neg (by simpa using apart),
      rules_alone past src _ _ _ (rules_unknown _ _ (ssid_known id few) _ unknown)]
    rfl

theorem grp_all_cfgs_iff (src : List (Str × Str)) (distinct : (src.map Prod.fst).Nodup) :
    (∀ past, CfgsRight src (grpAllCfgs past src)) ↔
      ∀ sect ∈ rootSections ++ (ssidIds src).flatMap ssidSections, sect.Fine src := by
  have made (past : Str → Str) : (grpAllCfgs past src).ssid =
      if ssidIds src = [] then none else some ((ssidIds src).map (grpSsid past src (grpAllCfgs past src).root)) := by
    have all : (grpAllCfgs past src).ssid = grpSsidCfg past src _ := rfl
    rw [all, grpSsidCfg, ssidIds]
    by_cases none : ssidNum src ≤ 0 ∨ 3 < ssidNum src
    · simp only [if_pos none, if_true]
    · have some : (ssidNum src).toNat ≠ 0 := by omega
      simp only [if_neg none]
      rw [if_neg (by simpa using some), map_map]
      rfl
  have pairs (past : Str → Str) (pair : Nat × Cfg) (there : pair ∈ (ssidIds src).zip ((grpAllCfgs past src).ssid.getD [])) :
      pair.1 ∈ ssidIds src ∧ pair.2 = grpSsid past src (grpAllCfgs past src).root pair.1 := by
    rw [made] at there
    split at there
    · simp at there
    · rw [Option.getD_some, zip_map_right, zip_eq_zipWith] at there
      simp only [zipWith_self, map_map, mem_map] at there
      obtain ⟨id, among, same⟩ := there
      exact same ▸ ⟨among, rfl⟩
  have objects (past : Str → Str) (id : Nat) (there : id ∈ ssidIds src) :
      (id, grpSsid past src (grpAllCfgs past src).root id) ∈ (ssidIds src).zip ((grpAllCfgs past src).ssid.getD []) := by
    rw [made, if_neg (ne_nil_of_mem there), Option.getD_some, zip_map_right, zip_eq_zipWith]
    simp only [zipWith_self, map_map, mem_map]
    exact ⟨id, there, rfl⟩
  have one (past : Str → Str) : CfgsRight src (grpAllCfgs past src) ↔
      ∀ sect ∈ rootSections ++ (ssidIds src).flatMap ssidSections, sect.Fine src := by
    have object (id : Nat) (there : id ∈ ssidIds src) :=
      ssid_right past src (grpAllCfgs past src).root id (ssid_ids src id there) distinct
    constructor
    · intro right sect there
      obtain global | own := mem_append.mp there
      · exact (root_right past src distinct).mp right.root sect global
      · obtain ⟨id, among, sect'⟩ := mem_flatMap.mp own
        exact (object id among).mp (right.ssid _ (objects past id among)).1 sect sect'
    · intro fine
      refine ⟨(root_right past src distinct).mpr fun sect there => fine sect (mem_append_left _ there), ?_, ?_⟩
      · rw [made]
        split
        · rfl
        · rw [Option.map_some, length_map]
      · rintro ⟨id, cfg⟩ there
        obtain ⟨among, same⟩ := pairs past _ there
        rw [same]
        exact ⟨(object id among).mpr fun sect member =>
          fine sect (mem_append_right _ (mem_flatMap.mpr ⟨id, among, member⟩)), ssid_http past src _ id⟩
  constructor
  · intro right
    exact (one fun _ => []).mp (right _)
  · intro fine past
    exact (one past).mpr fine

theorem fine_named (sect : Section) (src : List (Str × Str))
    (named : ∀ part ∈ sect.fill.toList ++ sect.subs.map Part.array, ∀ line ∈ src, grpMatches ⟨sect.root, part⟩ line.1 = true →
      names sect.root part.sub line.1 = true) : sect.Fine src := by
  have filled (part : Part) (fill : part ∈ sect.fill) := named part (mem_append_left _ (Option.mem_toList.mpr fill))
  constructor
  · intro sub there
    exact named _ (mem_append_right _ (mem_map.mpr ⟨sub, there, rfl⟩))
  · intro part fill line there matched
    exact (names_matches ⟨sect.root, part⟩ _ (filled part fill line there matched)).2
  · intro part fill before line after split name leaf read
    have there : line ∈ src := split ▸ mem_append_right _ mem_cons_self
    refine .inr (.inl ?_)
    rw [grpRead] at read
    split at read
    · rename_i matched
      rw [ownRead, if_pos (filled part fill line there matched.1), read]
    · cases read

def sampleLines : List (Str × Str) :=
  [(ascii "client.upt_period", ascii "30"), (ascii "bwlist.white.1", ascii "10.0.0.1"), (ascii "http.nas.switch", ascii "on"),
    (ascii "ssid_num", ascii "1"), (ascii "ssid_1_portal.id", ascii "7")]

theorem grp_all_cfgs_sample : CfgsRight sampleLines (grpAllCfgs (fun _ => []) sampleLines) := by
  refine (grp_all_cfgs_iff _ (by decide)).mpr (fun sect there => fine_named sect _ ?_) _
  revert sect
  decide +kernel

theorem black_line_white :
    (groupAt (grpAllCfgs (fun _ => []) [(ascii "bwlist.black.white1", ascii "10.0.0.9")]).root.groups (ascii "bwlist")).lookup
        (ascii "white") = some (.array [ascii "10.0.0.9"]) ∧
      ¬∀ src : List (Str × Str), (src.map Prod.fst).Nodup → ∀ past, CfgsRight src (grpAllCfgs past src) := by
  have wrong : (groupAt (grpAllCfgs (fun _ => []) [(ascii "bwlist.black.white1", ascii "10.0.0.9")]).root.groups (ascii "bwlist")).lookup
      (ascii "white") = some (.array [ascii "10.0.0.9"]) := by
    decide +kernel
  refine ⟨wrong, fun claim => ?_⟩
  have right := claim [(ascii "bwlist.black.white1", ascii "10.0.0.9")] (by decide) fun _ => []
  have held := right.root.holds ⟨ascii "bwlist", [ascii "white", ascii "black"], none⟩ (by decide) (ascii "white")
  rw [wrong] at held
  revert held
  decide

end Documents

end Codec.Client
