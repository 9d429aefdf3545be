import Codec.Lib.Lists
import Codec.Fw.Urls

set_option autoImplicit false

namespace Codec.Fw

open Codec.Ems Codec.Lib List

structure Shelf (book : Catalog) : Prop where
  distinct : (book.urls.map (·.id)).Nodup
  below : ∀ url ∈ book.urls, url.id < book.nextUrl
  keys : DistinctKeys book.hashUrl
  owned : ∀ entry ∈ book.hashUrl, ∃ url ∈ book.urls, url.id = entry.2
  white : ∀ url ∈ book.whitelist, url.subdomain = false
  sub : ∀ url ∈ book.subdomain, url.subdomain = true
  counted : book.nSubdomain = book.subdomain.length
  rules : book.rules.Perm (book.urls.flatMap DnsUrl.rules)

structure Named (book : Catalog) : Prop where
  found : ∀ url ∈ book.urls, hashFind book.hashUrl url.url = some url.id
  named : ∀ entry ∈ book.hashUrl, ∃ url ∈ book.urls, url.id = entry.2 ∧ url.url = entry.1

variable (book : Catalog) (id : Nat) (url : DnsUrl)

theorem catalog_url_mem (found : book.url? id = some url) : url ∈ book.urls ∧ url.id = id := by
  have same := find?_some found
  exact ⟨mem_of_find?_eq_some found, of_decide_eq_true same⟩

theorem catalog_url_of_mem (shelf : Shelf book) (url : DnsUrl) (there : url ∈ book.urls) : book.url? url.id = some url := by
  cases found : book.url? _ with
  | none => exact absurd rfl (of_decide_eq_false (eq_false_of_ne_true (find?_eq_none.mp found url there)))
  | some other =>
    obtain ⟨member, same⟩ := catalog_url_mem book _ _ found
    exact congrArg some (inj_on_of_nodup_map shelf.distinct member there same)

theorem edit_urls (change : DnsUrl → DnsUrl) :
    (book.edit id change).urls = book.urls.map fun url => if url.id = id then change url else url := by
  simp only [Catalog.urls, Catalog.edit, map_append]

theorem remove_urls : (book.remove url).urls = book.urls.filter (·.id ≠ url.id) := by
  simp only [Catalog.urls, Catalog.remove, filter_append]

theorem shelf_split (shelf : Shelf book) (url : DnsUrl) (there : url ∈ book.urls) :
    ∃ before behind, book.urls = before ++ url :: behind ∧
      (∀ change : DnsUrl → DnsUrl, (book.edit url.id change).urls = before ++ change url :: behind) ∧
      book.urls.filter (·.id ≠ url.id) = before ++ behind := by
  obtain ⟨before, behind, split, edited, removed⟩ :=
    keyed_split _ _ shelf.distinct url there
  exact ⟨before, behind, split, fun change => (edit_urls book _ _).trans (edited _), removed⟩

theorem edit_member (shelf : Shelf book) (url : DnsUrl) (there : url ∈ book.urls)
    (change : DnsUrl → DnsUrl) (same : (change url).id = url.id) (other : DnsUrl)
    (member : other ∈ (book.edit url.id change).urls) :
    ∃ old ∈ book.urls, old.id = other.id ∧ (other = old ∧ old ≠ url ∨ other = change url ∧ old = url) := by
  rw [edit_urls] at member
  obtain ⟨old, before, shape⟩ := mem_map.mp member
  by_cases own : old.id = url.id
  · have itself : old = url := inj_on_of_nodup_map shelf.distinct before there own
    rw [if_pos own, itself] at shape
    rw [← shape]
    exact ⟨url, there, same.symm, .inr ⟨rfl, rfl⟩⟩
  · rw [if_neg own] at shape
    rw [← shape]
    exact ⟨old, before, rfl, .inl ⟨rfl, fun equal => own (congrArg _ equal)⟩⟩

theorem edit_kept (change : DnsUrl → DnsUrl) (same : (change url).id = url.id)
    (old : DnsUrl) (there : old ∈ book.urls) (unique : old.id = url.id → old = url) :
    ∃ next ∈ (book.edit url.id change).urls, next.id = old.id := by
  rw [edit_urls]
  refine ⟨_, mem_map_of_mem there, ?_⟩
  by_cases own : old.id = url.id
  · rw [if_pos own, unique own, same]
  · rw [if_neg own]

theorem shelf_edit (shelf : Shelf book) (url : DnsUrl) (there : url ∈ book.urls)
    (change : DnsUrl → DnsUrl) (same : (change url).id = url.id ∧ (change url).subdomain = url.subdomain) (rules : List Rule)
    (matched : ∀ before behind, book.urls = before ++ url :: behind →
      (book.edit url.id change).urls = before ++ change url :: behind →
      rules.Perm ((before ++ change url :: behind).flatMap DnsUrl.rules)) :
    Shelf { book.edit url.id change with rules := rules } := by
  have unique (old : DnsUrl) (member : old ∈ book.urls) (own : old.id = url.id) : old = url :=
    inj_on_of_nodup_map shelf.distinct member there own
  have flagged (old : DnsUrl) (member : old ∈ book.urls) :
      (if old.id = url.id then change old else old).subdomain = old.subdomain := by
    by_cases own : old.id = url.id
    · rw [if_pos own, unique old member own, same.2]
    · rw [if_neg own]
  obtain ⟨before, behind, split, edited, _⟩ := shelf_split book shelf url there
  have ids : (book.edit url.id change).urls.map (·.id) = book.urls.map (·.id) := by
    rw [edited _, split, map_append, map_cons, same.1, map_append, map_cons]
  constructor
  · change ((book.edit _ _).urls.map _).Nodup
    rw [ids]
    exact shelf.distinct
  · intro other member
    obtain ⟨old, before', own, _⟩ := edit_member book shelf url there _ same.1 _ member
    rw [← own]
    exact shelf.below old before'
  · exact shelf.keys
  · intro entry inside
    obtain ⟨old, member, owns⟩ := shelf.owned _ inside
    obtain ⟨next, kept, own⟩ := edit_kept book url _ same.1 old member (unique old member)
    exact ⟨next, kept, own.trans owns⟩
  · intro other member
    obtain ⟨old, inside, shape⟩ := mem_map.mp member
    rw [← shape, flagged old (mem_append_left _ inside)]
    exact shelf.white old inside
  · intro other member
    obtain ⟨old, inside, shape⟩ := mem_map.mp member
    rw [← shape, flagged old (mem_append_right _ inside)]
    exact shelf.sub old inside
  · exact shelf.counted.trans (length_map _).symm
  · change rules.Perm ((book.edit _ _).urls.flatMap _)
    rw [edited _]
    exact matched _ _ split (edited _)

theorem flat_map_around (before behind : List DnsUrl) (url : DnsUrl) : (before ++ url :: behind).flatMap DnsUrl.rules =
      before.flatMap DnsUrl.rules ++ (url.rules ++ behind.flatMap DnsUrl.rules) := by
  rw [flatMap_append, flatMap_cons]

theorem shelf_marked (shelf : Shelf book) (url : DnsUrl) (there : url ∈ book.urls) (change : DnsUrl → DnsUrl)
    (same : (change url).id = url.id ∧ (change url).subdomain = url.subdomain ∧ (change url).rules = url.rules) :
    Shelf (book.edit url.id change) := by
  apply shelf_edit book shelf url there _ ⟨same.1, same.2.1⟩ _
  intro before behind split _
  rw [flat_map_around, same.2.2, ← flat_map_around, ← split]
  exact shelf.rules

theorem shelf_readdressed (shelf : Shelf book) (url : DnsUrl) (there : url ∈ book.urls)
    (change : DnsUrl → DnsUrl) (same : (change url).id = url.id ∧ (change url).subdomain = url.subdomain) :
    Shelf { book.edit url.id change with rules := (change url).rules.reverse ++ book.rules.diff url.rules } := by
  apply shelf_edit book shelf url there _ same
  intro before behind split _
  have all := shelf.rules
  rw [split, flat_map_around] at all
  have others := diff_around _ _ _ _ all
  rw [flat_map_around]
  calc (change url).rules.reverse ++ book.rules.diff _
    _ |>.Perm ((change url).rules ++ (before.flatMap _ ++ behind.flatMap _)) :=
        (reverse_perm _).append others
    _ |>.Perm (before.flatMap _ ++ ((change url).rules ++ behind.flatMap _)) := by
        rw [← append_assoc, ← append_assoc]
        exact perm_append_comm.append_right _

theorem shelf_removed (shelf : Shelf book) (url : DnsUrl) (there : url ∈ book.urls) (count : Nat)
    (counted : count = (book.subdomain.filter (·.id ≠ url.id)).length) :
    Shelf ({ book with nSubdomain := count }.remove url) := by
  obtain ⟨before, behind, split, _, removed⟩ := shelf_split book shelf url there
  have urls : ({ book with nSubdomain := count }.remove url).urls = before ++ behind := (remove_urls _ url).trans removed
  have left (other : DnsUrl) : other ∈ before ++ behind ↔ other ∈ book.urls ∧ other.id ≠ url.id := by
    rw [← removed, mem_filter, decide_eq_true_eq]
  constructor
  · rw [urls, ← removed]
    exact shelf.distinct.sublist (filter_sublist.map _)
  · intro other member
    rw [urls] at member
    exact shelf.below _ ((left _).mp member).1
  · exact hash_remove_distinct _ _ shelf.keys
  · intro entry inside
    obtain ⟨kept, apart⟩ := (hash_remove_mem _ _ _).mp inside
    obtain ⟨other, member, owns⟩ := shelf.owned _ kept
    rw [urls]
    exact ⟨other, (left _).mpr ⟨member, owns ▸ apart⟩, owns⟩
  · exact fun other member => shelf.white _ (mem_of_mem_filter member)
  · exact fun other member => shelf.sub _ (mem_of_mem_filter member)
  · exact counted
  · rw [urls]
    have all := shelf.rules
    rw [split, flat_map_around] at all
    have others := diff_around _ _ _ _ all
    rw [← flatMap_append] at others
    exact others

theorem filter_absent (urls : List DnsUrl) (id : Nat) (absent : ∀ url ∈ urls, url.id ≠ id) : urls.filter (·.id ≠ id) = urls :=
  filter_eq_self.mpr fun url member => decide_eq_true (absent url member)

theorem shelf_remove (shelf : Shelf book) (url : DnsUrl) (there : url ∈ book.whitelist) : Shelf (book.remove url) := by
  have inside : url ∈ book.urls := mem_append_left _ there
  apply shelf_removed book shelf url inside _
  rw [filter_absent]
  · exact shelf.counted
  · intro other member same
    have itself : other = url := inj_on_of_nodup_map shelf.distinct (mem_append_right _ member) inside same
    have flag := shelf.sub _ member
    rw [itself, shelf.white url there] at flag
    cases flag

theorem shelf_added (book next : Catalog) (shelf : Shelf book) (url : DnsUrl) (new : url.id = book.nextUrl)
    (bare : url.rules = []) (urls : next.urls.Perm (url :: book.urls)) (counter : next.nextUrl = book.nextUrl + 1)
    (name : Str) (hash : next.hashUrl = hashInsert book.hashUrl name url.id) (rules : next.rules = book.rules)
    (white : ∀ url ∈ next.whitelist, url.subdomain = false) (sub : ∀ url ∈ next.subdomain, url.subdomain = true)
    (counted : next.nSubdomain = next.subdomain.length) : Shelf next := by
  have apart (other : DnsUrl) (member : other ∈ book.urls) : other.id ≠ url.id := by
    have below := shelf.below _ member
    omega
  constructor
  · rw [(urls.map _).nodup_iff, map_cons, nodup_cons]
    refine ⟨?_, shelf.distinct⟩
    intro member
    obtain ⟨other, inside, same⟩ := mem_map.mp member
    exact apart _ inside same
  · intro other member
    rw [counter]
    rcases mem_cons.mp (urls.mem_iff.mp member) with same | old
    · rw [same, new]
      exact Nat.lt_succ_self _
    · exact Nat.lt_succ_of_lt (shelf.below _ old)
  · rw [hash]
    exact hash_insert_distinct _ _ _ shelf.keys
  · intro entry inside
    rw [hash] at inside
    rcases hash_insert_mem _ _ _ _ inside with ⟨same, _⟩ | old
    · rw [same]
      exact ⟨url, urls.mem_iff.mpr mem_cons_self, rfl⟩
    · obtain ⟨other, member, owns⟩ := shelf.owned _ old
      exact ⟨other, urls.mem_iff.mpr (mem_cons_of_mem _ member), owns⟩
  · exact white
  · exact sub
  · exact counted
  · rw [rules]
    have all := (urls.flatMap_right DnsUrl.rules).symm
    rw [flatMap_cons, bare, nil_append] at all
    exact shelf.rules.trans all

theorem shelf_append (shelf : Shelf book) (name : Str) (isblack : Bool) : Shelf (book.append name isblack) := by
  apply shelf_added book (book.append name _) shelf (newUrl _ name isblack) rfl rfl _ rfl name rfl rfl _
    shelf.sub shelf.counted
  · change (book.whitelist ++ [newUrl _ name _] ++ book.subdomain).Perm _
    rw [append_assoc, singleton_append]
    exact perm_middle
  · intro url member
    rcases mem_append.mp member with old | single
    · exact shelf.white url old
    · rw [mem_singleton.mp single]
      rfl

theorem shelf_add_sub (shelf : Shelf book) (name : Str) (isblack : Bool) : Shelf (book.addSub name isblack) := by
  apply shelf_added book (book.addSub name _) shelf { newUrl _ name isblack with subdomain := true } rfl
    rfl _ rfl name rfl rfl shelf.white
  · intro url member
    rcases mem_append.mp member with old | single
    · exact shelf.sub url old
    · rw [mem_singleton.mp single]
  · change book.nSubdomain + 1 = (book.subdomain ++ [_]).length
    rw [length_append, shelf.counted]
    rfl
  · change (book.whitelist ++ (book.subdomain ++ [_])).Perm _
    rw [← append_assoc]
    exact perm_append_singleton _ _

theorem shelf_evict (shelf : Shelf book) : Shelf book.evict := by
  rw [Catalog.evict]
  split
  · cases head : book.subdomain.head? with
    | none => exact shelf
    | some oldest =>
      obtain ⟨rest, queue⟩ := head?_eq_some_iff.mp head
      have inside : oldest ∈ book.urls := by
        rw [Catalog.urls, queue]
        exact mem_append_right _ mem_cons_self
      apply shelf_removed book shelf _ inside
      have distinct := shelf.distinct
      rw [Catalog.urls, queue, map_append, map_cons, nodup_append, nodup_cons] at distinct
      have later (url : DnsUrl) (member : url ∈ rest) : url.id ≠ oldest.id :=
        fun same => distinct.2.1.1 (same ▸ mem_map_of_mem member)
      rw [shelf.counted, queue, filter_cons_of_neg (by simp), filter_absent rest _ later]
      rfl
  · exact shelf

theorem lru_urls (shelf : Shelf book) (url : DnsUrl) (there : url ∈ book.urls) : (book.runLru url).urls.Perm book.urls := by
  obtain ⟨before, behind, split, _, removed⟩ := shelf_split book shelf url there
  have urls : (book.runLru url).urls = before ++ behind ++ [url] := by
    rw [← removed, Catalog.urls, Catalog.urls, filter_append]
    exact (append_assoc _ _ _).symm
  rw [urls, split]
  exact (perm_append_singleton _ _).trans perm_middle.symm

theorem subdomain_of_flag (shelf : Shelf book) (url : DnsUrl) (there : url ∈ book.urls)
    (flag : url.subdomain = true) : url ∈ book.subdomain := by
  rcases mem_append.mp there with white | sub
  · rw [shelf.white url white] at flag
    cases flag
  · exact sub

theorem shelf_lru (shelf : Shelf book) (url : DnsUrl) (there : url ∈ book.urls)
    (flag : url.subdomain = true) : Shelf (book.runLru url) := by
  have inside := subdomain_of_flag book shelf url there flag
  have moved := lru_urls book shelf url there
  constructor
  · exact (moved.map _).nodup_iff.mpr shelf.distinct
  · exact fun other member => shelf.below _ (moved.mem_iff.mp member)
  · exact shelf.keys
  · intro entry kept
    obtain ⟨other, member, owns⟩ := shelf.owned _ kept
    exact ⟨other, moved.mem_iff.mpr member, owns⟩
  · exact fun other member => shelf.white _ (mem_of_mem_filter member)
  · intro other member
    rcases mem_append.mp member with old | single
    · exact shelf.sub _ (mem_of_mem_filter old)
    · rw [mem_singleton.mp single]
      exact flag
  · have distinct : (book.subdomain.map _).Nodup :=
      (nodup_append.mp (map_append ▸ shelf.distinct)).2.1
    obtain ⟨_, _, halves, _, rest⟩ := keyed_split _ _ distinct url inside
    change book.nSubdomain = (book.subdomain.filter _ ++ [url]).length
    rw [shelf.counted, rest, length_append, length_append, halves, length_append, length_cons]
    rfl
  · exact shelf.rules.trans (moved.flatMap_right _).symm

theorem expire_mem (member : url ∈ book.expire.urls) : ∃ old ∈ book.urls, old.id = url.id ∧ old.url = url.url := by
  rcases mem_append.mp member with white | sub
  · exact ⟨url, mem_append_left _ white, rfl, rfl⟩
  · obtain ⟨old, inside, shape⟩ := mem_map.mp sub
    rw [← shape]
    exact ⟨old, mem_append_right _ inside, rfl, rfl⟩

theorem expire_kept (old : DnsUrl) (there : old ∈ book.urls) :
    ∃ url ∈ book.expire.urls, url.id = old.id ∧ url.url = old.url := by
  rcases mem_append.mp there with white | sub
  · exact ⟨old, mem_append_left _ white, rfl, rfl⟩
  · exact ⟨_, mem_append_right _ (mem_map_of_mem sub), rfl, rfl⟩

theorem shelf_expire (shelf : Shelf book) : Shelf book.expire := by
  have ids : book.expire.urls.map (·.id) = book.urls.map (·.id) := by
    simp only [Catalog.urls, Catalog.expire, map_append, map_map]
    rfl
  have rules : book.expire.urls.flatMap DnsUrl.rules = book.urls.flatMap DnsUrl.rules := by
    simp only [Catalog.urls, Catalog.expire, flatMap_append, flatMap_map]
    rfl
  constructor
  · rw [ids]
    exact shelf.distinct
  · intro url member
    obtain ⟨old, inside, same, _⟩ := expire_mem book url member
    rw [← same]
    exact shelf.below old inside
  · exact shelf.keys
  · intro entry inside
    obtain ⟨old, member, owns⟩ := shelf.owned _ inside
    obtain ⟨url, kept, same, _⟩ := expire_kept book old member
    exact ⟨url, kept, same.trans owns⟩
  · exact shelf.white
  · intro url member
    obtain ⟨old, inside, shape⟩ := mem_map.mp member
    rw [← shape]
    exact shelf.sub old inside
  · exact shelf.counted.trans (length_map _).symm
  · rw [rules]
    exact shelf.rules

theorem shelf_clear : Shelf book.clear where
  distinct := nodup_nil
  below := fun _ absent => nomatch absent
  keys := nodup_nil
  owned := fun _ absent => nomatch absent
  white := fun _ absent => nomatch absent
  sub := fun _ absent => nomatch absent
  counted := rfl
  rules := Perm.refl []

theorem url_effect_shelf (terms : Terms) (book next : Catalog) (shelf : Shelf book)
    (effect : UrlEffect terms book next) : Shelf next := by
  cases effect with
  | append name isblack _ _ _ => exact shelf_append book shelf name _
  | subdomain name isblack _ => exact shelf_evict _ (shelf_add_sub book shelf name _)
  | remove url _ there => exact shelf_remove book shelf url there
  | edit url found change same _ => exact shelf_marked book shelf url (catalog_url_mem book _ url found).1 _ same
  | readdress url found change same _ =>
    exact shelf_readdressed book shelf url (catalog_url_mem book _ url found).1 _ same
  | lru url found sub => exact shelf_lru book shelf url (catalog_url_mem book _ url found).1 sub
  | expire => exact shelf_expire book shelf
  | clear _ => exact shelf_clear book

def Bounded (book : Catalog) : Prop := book.subdomain.length ≤ maxSubDomain

theorem url_effect_bounded (terms : Terms) (book next : Catalog) (shelf : Shelf book) (bounded : Bounded book)
    (effect : UrlEffect terms book next) : Bounded next := by
  cases effect with
  | append name isblack _ _ _ => exact bounded
  | subdomain name isblack _ =>
    have grown := shelf_add_sub book shelf name isblack
    have length : (book.addSub name isblack).subdomain.length = book.subdomain.length + 1 := length_append
    have count := grown.counted
    generalize book.addSub name _ = longer at length count
    rw [Bounded, Catalog.evict]
    split
    · cases head : longer.subdomain.head? with
      | none =>
        rw [head?_eq_none_iff.mp head] at length
        cases length
      | some oldest =>
        obtain ⟨rest, queue⟩ := head?_eq_some_iff.mp head
        change (longer.subdomain.filter _).length ≤ maxSubDomain
        rw [queue, filter_cons_of_neg (by simp)]
        rw [queue, length_cons] at length
        have shorter := length_filter_le (fun url : DnsUrl => decide (url.id ≠ oldest.id)) rest
        rw [Bounded] at bounded
        omega
    · omega
  | remove url _ there => exact Nat.le_trans (length_filter_le _ _) bounded
  | edit url found change same _ => exact Nat.le_trans (Nat.le_of_eq (length_map _)) bounded
  | readdress url found change same _ => exact Nat.le_trans (Nat.le_of_eq (length_map _)) bounded
  | lru url found sub =>
    have next := (shelf_lru book shelf url (catalog_url_mem book _ url found).1 sub).counted
    rw [Bounded, ← next]
    exact shelf.counted ▸ bounded
  | expire => exact Nat.le_trans (Nat.le_of_eq (length_map _)) bounded
  | clear _ => exact Nat.zero_le _

end Codec.Fw
