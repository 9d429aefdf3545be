import Codec.Fw.UrlMoves
import Codec.Fw.Collisions

set_option autoImplicit false

namespace Codec.Fw

open Codec.Ems Codec.Lib

section Names

variable (book : Catalog) (shelf : Shelf book) (named : Named book)

include shelf named

omit shelf in
theorem name_free (name : Str) (absent : ∀ url ∈ book.urls, url.url ≠ name) : hashFind book.hashUrl name = none := by
  rw [hash_find_none]
  intro id inside
  obtain ⟨url, there, _, keyed⟩ := named.named _ inside
  exact absent url there keyed

omit named in
theorem find_free (name : Str) (unknown : book.find name = none) : hashFind book.hashUrl name = none := by
  cases found : hashFind _ name with
  | none => rfl
  | some id =>
    obtain ⟨url, there, owns⟩ := shelf.owned _ (hash_find_mem _ name id found)
    have hit := catalog_url_of_mem book shelf url there
    rw [owns] at hit
    rw [Catalog.find, found, Option.bind_some, hit] at unknown
    cases unknown

-- A fresh entry under a name that the hash does not hold.
omit shelf in
theorem named_added (next : Catalog) (url : DnsUrl) (free : hashFind book.hashUrl url.url = none)
    (urls : next.urls.Perm (url :: book.urls)) (hash : next.hashUrl = hashInsert book.hashUrl url.url url.id) : Named next := by
  constructor
  · intro other member
    rw [hash, hash_insert_find]
    rcases List.mem_cons.mp (urls.mem_iff.mp member) with same | old
    · rw [same, if_pos rfl, free]
      rfl
    · have hit := named.found _ old
      have apart : other.url ≠ url.url := by
        intro same
        rw [same, free] at hit
        cases hit
      rw [if_neg apart]
      exact hit
  · intro entry inside
    rw [hash] at inside
    rcases hash_insert_mem _ _ _ _ inside with ⟨same, _⟩ | old
    · rw [same]
      exact ⟨url, urls.mem_iff.mpr List.mem_cons_self, rfl, rfl⟩
    · obtain ⟨other, there, owns, keyed⟩ := named.named _ old
      exact ⟨other, urls.mem_iff.mpr (List.mem_cons_of_mem _ there), owns, keyed⟩

theorem named_removed (next : Catalog) (id : Nat) (urls : next.urls = book.urls.filter (·.id ≠ id))
    (hash : next.hashUrl = hashRemove book.hashUrl id) : Named next := by
  constructor
  · intro other member
    rw [urls, List.mem_filter, decide_eq_true_eq] at member
    rw [hash]
    exact hash_remove_find _ shelf.keys id _ _ member.2 (named.found _ member.1)
  · intro entry inside
    rw [hash, hash_remove_mem] at inside
    obtain ⟨other, there, owns, keyed⟩ := named.named _ inside.1
    rw [urls]
    have kept : decide _ = true := decide_eq_true (owns ▸ inside.2)
    exact ⟨other, List.mem_filter.mpr ⟨there, kept⟩, owns, keyed⟩

theorem named_edited (url : DnsUrl) (there : url ∈ book.urls) (change : DnsUrl → DnsUrl)
    (same : (change url).id = url.id) (unnamed : (change url).url = url.url) (rules : List Rule) :
    Named { book.edit url.id change with rules := rules } := by
  constructor
  · intro other member
    obtain ⟨old, before, own, shape⟩ := edit_member book shelf url there _ same _ member
    have name : other.url = old.url := by
      rcases shape with ⟨equal, _⟩ | ⟨equal, itself⟩
      · rw [equal]
      · rw [equal, itself, unnamed]
    rw [name, ← own]
    exact named.found old before
  · intro entry inside
    obtain ⟨old, before, owns, keyed⟩ := named.named _ inside
    have after : (if old.id = url.id then change old else old) ∈ (book.edit url.id change).urls := by
      rw [edit_urls]
      exact List.mem_map_of_mem before
    by_cases own : old.id = url.id
    · have itself : old = url := List.inj_on_of_nodup_map shelf.distinct before there own
      rw [if_pos own, itself] at after
      rw [itself] at owns keyed
      exact ⟨change url, after, same.trans owns, unnamed.trans keyed⟩
    · rw [if_neg own] at after
      exact ⟨old, after, owns, keyed⟩

theorem named_evict : Named book.evict := by
  rw [Catalog.evict]
  split
  · cases book.subdomain.head? with
    | none => exact named
    | some oldest => exact named_removed book shelf named _ _ (remove_urls _ _) rfl
  · exact named

end Names

def Terms.strict : Terms := ⟨True, False, fun _ _ => False⟩

theorem url_effect_named (book next : Catalog) (shelf : Shelf book) (named : Named book)
    (effect : UrlEffect Terms.strict book next) : Named next := by
  cases effect with
  | append name isblack _ absent free =>
    have clear : ∀ url ∈ book.urls, url.url ≠ name := by
      intro url there
      rcases List.mem_append.mp there with white | sub
      · exact of_decide_eq_false (eq_false_of_ne_true (List.find?_eq_none.mp absent url white))
      · exact free.resolve_left id url sub
    apply named_added book named _ (newUrl _ name isblack) (name_free book named name clear) _ rfl
    change (book.whitelist ++ [newUrl _ name _] ++ book.subdomain).Perm _
    rw [List.append_assoc, List.singleton_append]
    exact List.perm_middle
  | subdomain name isblack unknown =>
    have free := find_free book shelf name (unknown.resolve_left id)
    apply named_evict _ (shelf_add_sub book shelf name _)
    apply named_added book named _ { newUrl _ name isblack with subdomain := true } free _ rfl
    change (book.whitelist ++ (book.subdomain ++ [_])).Perm _
    rw [← List.append_assoc]
    exact List.perm_append_singleton _ _
  | remove url _ there => exact named_removed book shelf named _ _ (remove_urls book url) rfl
  | edit url found change same kept =>
    have there := (catalog_url_mem book _ url found).1
    exact named_edited book shelf named url there _ same.1 (kept.resolve_right id) _
  | readdress url found change same kept =>
    have there := (catalog_url_mem book _ url found).1
    exact named_edited book shelf named url there _ same.1 (kept.resolve_right id) _
  | lru url found sub =>
    have moved := lru_urls book shelf url (catalog_url_mem book _ url found).1
    constructor
    · exact fun other member => named.found _ (moved.mem_iff.mp member)
    · intro entry inside
      obtain ⟨other, there, owns, keyed⟩ := named.named _ inside
      exact ⟨other, moved.mem_iff.mpr there, owns, keyed⟩
  | expire =>
    constructor
    · intro url member
      obtain ⟨old, inside, own, name⟩ := expire_mem book url member
      rw [← own, ← name]
      exact named.found old inside
    · intro entry inside
      obtain ⟨old, there, owns, keyed⟩ := named.named _ inside
      obtain ⟨url, kept, own, name⟩ := expire_kept book old there
      exact ⟨url, kept, own.trans owns, name.trans keyed⟩
  | clear _ =>
    constructor
    · intro url member
      cases member
    · intro entry inside
      cases inside

theorem step_moves (terms : Terms) (fw : EmsFw) (shelf : Shelf fw.catalog) (event : Event)
    (kept : fw.fault = none → Keeps terms fw event) : UrlEffects terms fw.catalog (step fw event).catalog := by
  rw [step, EmsFw.andThen]
  split
  · rename_i alive
    exact handle_moves _ fw shelf _ (kept alive)
  · exact .refl

theorem step_shelf (terms : Terms) (fw : EmsFw) (shelf : Shelf fw.catalog) (event : Event)
    (kept : fw.fault = none → Keeps terms fw event) : Shelf (step fw event).catalog :=
  url_effects_keep _ _ (url_effect_shelf _) _ _ (step_moves _ fw shelf _ kept) shelf

theorem keeps_free (fw : EmsFw) (event : Event) : Keeps ⟨True, True, fun _ _ => True⟩ fw event := by
  cases event with
  | stop => trivial
  | flush lists id => exact fun _ => ⟨trivial, fun _ _ _ => trivial⟩
  | addressAdd names => exact fun _ => ⟨trivial, .inl trivial⟩
  | addressDel names => trivial
  | checkUrlWhitelist addr id => exact fun _ _ => .inl trivial
  | schedule id => exact fun _ _ _ _ => trivial
  | _ => trivial

theorem run_shelf (events : List Event) : Shelf (run step EmsFw.init events).catalog := by
  apply run_keeps step _ (fun fw => Shelf fw.catalog) EmsFw.init _ (shelf_clear EmsFw.init.catalog)
  · exact fun fw event shelf _ => step_shelf _ fw shelf _ fun _ => keeps_free fw _
  · exact all_steps_of_all step _ _ _ fun _ _ => trivial

theorem url_rules_match (events : List Event) :
    (run step EmsFw.init events).rules.Perm ((run step EmsFw.init events).urls.flatMap DnsUrl.rules) :=
  (run_shelf _).rules

def Coherent (fw : EmsFw) : Prop :=
  fw.hashUrl.Perm (fw.urls.map fun url => (url.url, url.id)) ∧
  (∀ url ∈ fw.urls, dnsFindUrl fw url.url = some url) ∧
  (fw.urls.map (·.url)).Nodup ∧
  fw.nSubdomain = fw.subdomain.length ∧
  fw.nSubdomain ≤ maxSubDomain

instance (fw : EmsFw) : Decidable (Coherent fw) := by
  rw [Coherent]
  infer_instance

def NamesKept (fw : EmsFw) (event : Event) : Prop := fw.fault = none → Keeps Terms.strict fw event

theorem shelf_coherent (fw : EmsFw) (shelf : Shelf fw.catalog) (named : Named fw.catalog) (bounded : Bounded fw.catalog) :
    Coherent fw := by
  have urls : fw.urls.Nodup := List.Nodup.of_map _ shelf.distinct
  have apart (url : DnsUrl) (there : url ∈ fw.urls) (other : DnsUrl) (member : other ∈ fw.urls)
      (same : url.url = other.url) : url = other := by
    have left := named.found url there
    rw [same, named.found _ member] at left
    exact List.inj_on_of_nodup_map shelf.distinct there member (Option.some.inj left).symm
  refine ⟨?_, ?_, ?_, shelf.counted, ?_⟩
  · have keys : fw.hashUrl.Nodup := List.Nodup.of_map _ shelf.keys
    rw [List.perm_ext_iff_of_nodup keys]
    · intro entry
      rw [List.mem_map]
      constructor
      · intro inside
        obtain ⟨url, there, owns, keyed⟩ := named.named _ inside
        exact ⟨url, there, Prod.ext keyed owns⟩
      · intro ⟨url, there, shape⟩
        rw [← shape]
        exact hash_find_mem _ _ _ (named.found url there)
    · exact urls.map_on fun url there other member same => apart url there _ member (congrArg Prod.fst same)
  · intro url there
    have hit := catalog_url_of_mem _ shelf url there
    change (hashFind fw.catalog.hashUrl _).bind fw.catalog.url? = some url
    rw [named.found url there, Option.bind_some, hit]
  · exact urls.map_on apart
  · exact Nat.le_trans (Nat.le_of_eq shelf.counted) bounded

def Kept (book : Catalog) : Prop := Shelf book ∧ Named book ∧ Bounded book

theorem kept_empty (book : Catalog) : Kept book.clear := by
  refine ⟨shelf_clear book, ⟨?_, ?_⟩, Nat.zero_le _⟩
  · intro url absent
    cases absent
  · intro entry absent
    cases absent

theorem url_effect_kept (book next : Catalog) (kept : Kept book) (effect : UrlEffect Terms.strict book next) : Kept next :=
  ⟨url_effect_shelf _ book next kept.1 effect, url_effect_named book next kept.1 kept.2.1 effect,
    url_effect_bounded _ book next kept.1 kept.2.2 effect⟩

theorem url_table_coherent (events : List Event) (steps : AllSteps step NamesKept EmsFw.init events) :
    Coherent (run step EmsFw.init events) := by
  have kept := run_keeps step _ _ _ _ (kept_empty EmsFw.init.catalog)
    (fun fw event good allowed =>
      url_effects_keep _ Kept url_effect_kept _ _ (step_moves _ fw good.1 _ allowed) good)
    steps
  exact shelf_coherent _ kept.1 kept.2.1 kept.2.2

instance (fw : EmsFw) (event : Event) : Decidable (NamesKept fw event) := by
  have _ : Decidable Terms.strict.lists := isTrue trivial
  have _ : Decidable Terms.strict.twice := isFalse id
  have _ (old new : Str) : Decidable (Terms.strict.renames old new) := isFalse id
  exact inferInstanceAs (Decidable (fw.fault = none → Keeps Terms.strict fw event))

def listThenPage (page : Str) : List Event :=
  [.start (some 9300) true, .addressAdd [sampleName], .checkUrlWhitelist page 7, .schedule 6]

theorem url_table_coherent_sample : Coherent (run step EmsFw.init (listThenPage [119, 46, 98])) :=
  url_table_coherent _ (by decide +kernel)

theorem page_entered_twice : ¬∀ events, Coherent (run step EmsFw.init events) := by
  intro coherent
  exact absurd (coherent (listThenPage sampleName)) (by decide +kernel)

end Codec.Fw
