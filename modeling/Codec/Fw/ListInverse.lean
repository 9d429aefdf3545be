import Mathlib
import Codec.Fw.Coherence

set_option autoImplicit false

namespace Codec.Fw

open Codec.Ems Codec.Lib List

local instance lawfulName : LawfulBEq Str := inferInstance

def listed (names : List Str) (white : List DnsUrl) : List (Nat × Str) :=
  (white.filter (·.url ∈ names)).map fun url => (url.id, url.url)

def Single (names : List Str) (white : List DnsUrl) : Prop :=
  ∀ url ∈ white, ∀ other ∈ white, url.url ∈ names → url.url = other.url → url.id = other.id

def Terms.between (names : List Str) : Terms := ⟨False, True, fun old new => old ∉ names ∧ new ∉ names⟩

section Listed

variable (names : List Str)

theorem listed_mem (white : List DnsUrl) (id : Nat) (name : Str) :
    (id, name) ∈ listed names white ↔ name ∈ names ∧ ∃ url ∈ white, url.id = id ∧ url.url = name := by
  simp only [listed, mem_map, mem_filter, decide_eq_true_eq, Prod.mk.injEq]
  constructor
  · intro ⟨url, ⟨there, inside⟩, own, keyed⟩
    exact ⟨keyed ▸ inside, url, there, own, keyed⟩
  · intro ⟨inside, url, there, own, keyed⟩
    exact ⟨url, ⟨there, keyed ▸ inside⟩, own, keyed⟩

theorem single_listed (white other : List DnsUrl) (same : listed names other = listed names white)
    (single : Single names white) : Single names other := by
  intro url there twin member inside equal
  have first := (listed_mem _ _ _ _).mpr ⟨inside, url, there, rfl, rfl⟩
  have second := (listed_mem _ _ _ _).mpr ⟨inside, twin, member, rfl, equal.symm⟩
  rw [same] at first second
  obtain ⟨_, old, before, own, keyed⟩ := (listed_mem _ _ _ _).mp first
  obtain ⟨_, pair, beside, owns, named⟩ := (listed_mem _ _ _ _).mp second
  rw [← own, ← owns]
  exact single old before pair beside (keyed ▸ inside) (keyed.trans named.symm)

theorem listed_cons (url : DnsUrl) (rest : List DnsUrl) :
    listed names (url :: rest) = if url.url ∈ names then (url.id, url.url) :: listed names rest else listed names rest := by
  simp only [listed, filter_cons, decide_eq_true_eq]
  split
  · rw [map_cons]
  · rfl

theorem listed_edit (white : List DnsUrl) (edit : DnsUrl → DnsUrl) (same : ∀ url ∈ white, (edit url).id = url.id ∧
      ((edit url).url = url.url ∨ url.url ∉ names ∧ (edit url).url ∉ names)) :
    listed names (white.map edit) = listed names white := by
  induction white with
  | nil => rfl
  | cons url rest ih =>
    have later := ih fun other member => same _ (mem_cons_of_mem url member)
    obtain ⟨own, name⟩ := same url mem_cons_self
    rw [map_cons, listed_cons, listed_cons, later]
    rcases name with kept | ⟨outside, apart⟩
    · rw [kept, own]
    · rw [if_neg outside, if_neg apart]

theorem whitelist_apart (book : Catalog) (shelf : Shelf book) (url : DnsUrl) (there : url ∈ book.subdomain) :
    book.whitelist.filter (·.id ≠ url.id) = book.whitelist := by
  apply filter_absent
  intro other member same
  have itself : other = url :=
    inj_on_of_nodup_map shelf.distinct (mem_append_left _ member) (mem_append_right _ there) same
  have flag := shelf.white _ member
  rw [itself, shelf.sub url there] at flag
  cases flag

theorem listed_edited (book : Catalog) (shelf : Shelf book) (url : DnsUrl) (found : book.url? url.id = some url)
    (change : DnsUrl → DnsUrl) (same : (change url).id = url.id)
    (named : (change url).url = url.url ∨ url.url ∉ names ∧ (change url).url ∉ names) :
    listed names (book.edit url.id change).whitelist = listed names book.whitelist := by
  apply listed_edit
  intro other member
  by_cases own : other.id = url.id
  · have there := (catalog_url_mem book _ url found).1
    have itself : other = url := inj_on_of_nodup_map shelf.distinct (mem_append_left _ member) there own
    rw [if_pos own, itself]
    exact ⟨same, named⟩
  · rw [if_neg own]
    exact ⟨rfl, .inl rfl⟩

theorem url_effect_listed (book next : Catalog) (shelf : Shelf book)
    (effect : UrlEffect (Terms.between names) book next) : listed names next.whitelist = listed names book.whitelist := by
  cases effect with
  | append name isblack barred absent free => exact barred.elim
  | subdomain name isblack unknown =>
    have grown := shelf_add_sub book shelf name isblack
    have same : (book.addSub name isblack).whitelist = book.whitelist := rfl
    rw [← same]
    generalize book.addSub name _ = longer at grown
    rw [Catalog.evict]
    split
    · cases head : longer.subdomain.head? with
      | none => rfl
      | some oldest =>
        have there : oldest ∈ longer.subdomain := mem_of_mem_head? head
        exact congrArg _ (whitelist_apart _ grown _ there)
    · rfl
  | remove url barred there => exact barred.elim
  | edit url found change same named => exact listed_edited _ book shelf url found _ same.1 named
  | readdress url found change same named => exact listed_edited _ book shelf url found _ same.1 named
  | lru url found sub =>
    have there := subdomain_of_flag book shelf url (catalog_url_mem book _ url found).1 sub
    exact congrArg _ (whitelist_apart book shelf url there)
  | expire => rfl
  | clear barred => exact barred.elim

end Listed

section Lists

theorem find_url_none (white : List DnsUrl) (name : Str) (absent : findUrl white name = none) (url : DnsUrl)
    (there : url ∈ white) : url.url ≠ name :=
  of_decide_eq_false (eq_false_of_ne_true (find?_eq_none.mp absent url there))

theorem find_url_some (white : List DnsUrl) (name : Str) (url : DnsUrl) (found : findUrl white name = some url) :
    url ∈ white ∧ url.url = name := by
  have named := find?_some found
  exact ⟨mem_of_find?_eq_some found, of_decide_eq_true named⟩

variable (fw : EmsFw) (names : List Str) (isblack : Bool)

theorem append_urls_again (all : ∀ name ∈ names, ∃ url ∈ fw.whitelist, url.url = name) : fwAppendUrls fw names isblack = fw := by
  induction names with
  | nil => rfl
  | cons name rest ih =>
    have same : fwAppendUrl isblack fw name = fw := by
      rw [fwAppendUrl]
      cases found : findUrl _ name with
      | some url => rfl
      | none =>
        obtain ⟨url, there, keyed⟩ := all name mem_cons_self
        exact absurd keyed (find_url_none _ name found url there)
    change fwAppendUrls _ rest _ = fw
    rw [same]
    exact ih fun other later => all _ (mem_cons_of_mem name later)

theorem append_urls_kept (url : DnsUrl) (there : url ∈ fw.whitelist) : url ∈ (fwAppendUrls fw names isblack).whitelist := by
  induction names generalizing fw with
  | nil => exact there
  | cons name rest ih =>
    apply ih
    rw [fwAppendUrl]
    cases findUrl _ name with
    | some _ => exact there
    | none => exact mem_append_left _ there

theorem append_urls_all (name : Str) (inside : name ∈ names) :
    ∃ url ∈ (fwAppendUrls fw names isblack).whitelist, url.url = name := by
  induction names generalizing fw with
  | nil => cases inside
  | cons first rest ih =>
    cases inside with
    | tail _ later => exact ih _ later
    | head =>
      have here : ∃ url ∈ (fwAppendUrl isblack fw name).whitelist, url.url = name := by
        rw [fwAppendUrl]
        cases found : findUrl _ name with
        | some url => exact ⟨url, find_url_some _ name url found⟩
        | none => exact ⟨newUrl _ name _, mem_append_right _ mem_cons_self, rfl⟩
      obtain ⟨url, there, keyed⟩ := here
      exact ⟨url, append_urls_kept _ rest _ url there, keyed⟩

theorem append_urls_single (all names : List Str) (isblack : Bool) (single : Single all fw.whitelist) :
    Single all (fwAppendUrls fw names isblack).whitelist := by
  induction names generalizing fw with
  | nil => exact single
  | cons name rest ih =>
    apply ih
    rw [fwAppendUrl]
    cases found : findUrl _ name with
    | some _ => exact single
    | none =>
      have apart := find_url_none _ name found
      intro url there other member inside same
      rcases mem_append.mp there with old | new
      · rcases mem_append.mp member with older | newer
        · exact single url old _ older inside same
        · rw [mem_singleton.mp newer] at same
          exact absurd same (apart url old)
      · rcases mem_append.mp member with older | newer
        · rw [mem_singleton.mp new] at same
          exact absurd same.symm (apart _ older)
        · rw [mem_singleton.mp new, mem_singleton.mp newer]

theorem remove_url_whitelist (name : Str)
    (distinct : ∀ url ∈ fw.whitelist, ∀ other ∈ fw.whitelist, url.id = other.id → url = other)
    (single : Single [name] fw.whitelist) : (fwRemoveUrl fw name).whitelist = fw.whitelist.filter (·.url ≠ name) := by
  rw [fwRemoveUrl]
  cases found : findUrl _ name with
  | none =>
    have apart := find_url_none _ name found
    exact (filter_eq_self.mpr fun url there => decide_eq_true (apart url there)).symm
  | some url =>
    obtain ⟨there, keyed⟩ := find_url_some _ name url found
    apply filter_congr
    intro other member
    rw [decide_eq_decide]
    constructor
    · intro apart same
      exact apart (single _ member url there (mem_singleton.mpr same) (same.trans keyed.symm))
    · intro apart same
      exact apart ((congrArg _ (distinct _ member url there same)).trans keyed)

theorem remove_urls_whitelist (distinct : ∀ url ∈ fw.whitelist, ∀ other ∈ fw.whitelist, url.id = other.id → url = other)
    (single : Single names fw.whitelist) : (fwRemoveUrls fw names).whitelist = fw.whitelist.filter (·.url ∉ names) := by
  induction names generalizing fw with
  | nil => exact (filter_eq_self.mpr fun _ _ => decide_eq_true not_mem_nil).symm
  | cons name rest ih =>
    have first := remove_url_whitelist fw name distinct fun url there other member inside =>
      single url there _ member (mem_singleton.mp inside ▸ mem_cons_self)
    have left (url : DnsUrl) (there : url ∈ (fwRemoveUrl fw name).whitelist) : url ∈ fw.whitelist := by
      rw [first] at there
      exact mem_of_mem_filter there
    change (fwRemoveUrls _ rest).whitelist = _
    rw [ih]
    · rw [first, filter_filter]
      apply filter_congr
      intro url _
      simp only [mem_cons, not_or, ne_eq, Bool.decide_and, decide_not, Bool.and_comm]
    · exact fun url there other member => distinct url (left url there) _ (left _ member)
    · exact fun url there other member inside =>
        single url (left url there) _ (left _ member) (mem_cons_of_mem name inside)

theorem remove_urls_subdomain (url : DnsUrl) (there : url ∈ (fwRemoveUrls fw names).subdomain) : url ∈ fw.subdomain := by
  induction names generalizing fw with
  | nil => exact there
  | cons name rest ih =>
    have before := ih _ there
    rw [fwRemoveUrl] at before
    cases found : findUrl _ name with
    | none =>
      rw [found] at before
      exact before
    | some old =>
      rw [found] at before
      exact mem_of_mem_filter before

end Lists

def keepsLists : Event → Bool
  | .stop => false
  | .flush _ _ => false
  | .addressAdd _ => false
  | .addressDel _ => false
  | _ => true

def RenamesApart (names : List Str) (fw : EmsFw) : Event → Prop
  | .schedule _ => fw.fault = none → fw.sessBind.isSome → ∀ url ∈ fw.whitelist, url.splits = true →
      url.url ∉ names ∧ addrPart url.url ∉ names
  | _ => True

instance (names : List Str) (fw : EmsFw) (event : Event) : Decidable (RenamesApart names fw event) := by
  rcases event <;> unfold RenamesApart <;> infer_instance

instance (names : List Str) (white : List DnsUrl) : Decidable (Single names white) :=
  inferInstanceAs (Decidable (∀ url ∈ white, ∀ other ∈ white, _))

def InForce (names : List Str) (isblack : Bool) (start fw : EmsFw) : Prop :=
  fwAppendUrls fw names isblack = fw ∧
  (∀ url ∈ (fwRemoveUrls fw names).whitelist, url.url ∉ names) ∧
  (∀ url ∈ start.whitelist, url.url ∈ names →
    (∀ other ∈ (fwRemoveUrls fw names).urls, other.id ≠ url.id) ∧
    ∀ entry ∈ (fwRemoveUrls fw names).hashUrl, entry.2 ≠ url.id) ∧
  (fwRemoveUrls fw names).rules.Perm ((fwRemoveUrls fw names).urls.flatMap DnsUrl.rules)

theorem listed_in_force (names : List Str) (isblack : Bool) (start fw : EmsFw) (shelf : Shelf fw.catalog)
    (same : listed names fw.whitelist = listed names start.whitelist) (single : Single names start.whitelist)
    (all : ∀ name ∈ names, ∃ url ∈ start.whitelist, url.url = name) : InForce names isblack start fw := by
  have after : Shelf _ :=
    url_effects_keep _ _ (url_effect_shelf _) _ _
      (remove_urls_moves ⟨True, True, fun _ _ => True⟩ fw names trivial) shelf
  have distinct (url : DnsUrl) (there : url ∈ fw.urls) (other : DnsUrl) (member : other ∈ fw.urls)
      (own : url.id = other.id) : url = other := inj_on_of_nodup_map shelf.distinct there member own
  have white := remove_urls_whitelist fw _
    (fun url there other member => distinct url (mem_append_left _ there) _ (mem_append_left _ member))
    (single_listed _ _ _ same single)
  have outside (url : DnsUrl) (there : url ∈ (fwRemoveUrls fw names).whitelist) :
      url ∈ fw.whitelist ∧ url.url ∉ names := by
    rw [white] at there
    exact ⟨mem_of_mem_filter there, of_decide_eq_true (mem_filter.mp there).2⟩
  have gone (url : DnsUrl) (there : url ∈ start.whitelist) (inside : url.url ∈ names) (other : DnsUrl)
      (member : other ∈ (fwRemoveUrls fw names).urls) : other.id ≠ url.id := by
    intro own
    have entered := (listed_mem _ _ _ _).mpr ⟨inside, url, there, rfl, rfl⟩
    rw [← same] at entered
    obtain ⟨_, now, here, owns, keyed⟩ := (listed_mem _ _ _ _).mp entered
    rcases mem_append.mp member with left | sub
    · obtain ⟨old, apart⟩ := outside _ left
      have itself := distinct _ (mem_append_left _ old) now (mem_append_left _ here) (own.trans owns.symm)
      rw [itself, keyed] at apart
      exact apart inside
    · have old := remove_urls_subdomain fw _ _ sub
      have itself := distinct _ (mem_append_right _ old) now (mem_append_left _ here) (own.trans owns.symm)
      have flag := shelf.white now here
      rw [← itself, shelf.sub _ old] at flag
      cases flag
  refine ⟨?_, fun url there => (outside url there).2, ?_, after.rules⟩
  · apply append_urls_again
    intro name inside
    obtain ⟨url, there, keyed⟩ := all name inside
    have entered := (listed_mem _ _ _ name).mpr ⟨inside, url, there, rfl, keyed⟩
    rw [← same] at entered
    obtain ⟨_, now, here, _, named⟩ := (listed_mem _ _ _ _).mp entered
    exact ⟨now, here, named⟩
  · intro url there inside
    refine ⟨gone url there inside, ?_⟩
    intro entry hashed own
    obtain ⟨other, member, owns⟩ := after.owned _ hashed
    exact gone url there inside _ member (owns.trans own)

theorem apart_keeps (names : List Str) (fw : EmsFw) (event : Event) (lists : keepsLists event = true)
    (apart : RenamesApart names fw event) (alive : fw.fault = none) : Keeps (Terms.between names) fw event := by
  cases event with
  | schedule id => exact fun bound url there splits => apart alive bound url there splits
  | checkUrlWhitelist addr id => exact fun _ _ => .inl trivial
  | stop => cases lists
  | flush _ _ => cases lists
  | addressAdd _ => cases lists
  | addressDel _ => cases lists
  | _ => trivial

theorem list_stays_in_force (before : List Event) (names : List Str) (isblack : Bool) (between : List Event)
    (lists : ∀ event ∈ between, keepsLists event = true) (single : Single names (run step EmsFw.init before).whitelist)
    (steps : AllSteps step (RenamesApart names) (fwAppendUrls (run step EmsFw.init before) names isblack) between) :
    InForce names isblack (fwAppendUrls (run step EmsFw.init before) names isblack)
      (run step (fwAppendUrls (run step EmsFw.init before) names isblack) between) := by
  have shelf : Shelf _ :=
    url_effects_keep _ _ (url_effect_shelf _) _ _
      (append_urls_moves ⟨True, True, fun _ _ => True⟩ _ names isblack trivial (.inl trivial)) (run_shelf before)
  have once := append_urls_single _ _ names isblack single
  have all := append_urls_all (run step EmsFw.init before) names isblack
  generalize fwAppendUrls _ _ _ = start at shelf once all steps
  have both := all_steps_and step _ _ _ _
    (all_steps_of_all step _ _ _ lists) steps
  have kept := run_keeps step _
    (fun fw => Shelf _ ∧ listed _ _ = listed _ start.whitelist) _ _
    ⟨shelf, rfl⟩
    (by
      intro fw event good allowed
      apply url_effects_keep _
        (fun book => Shelf book ∧ listed _ book.whitelist = listed names _) _ _ _
        (step_moves _ fw good.1 _ (apart_keeps _ fw _ allowed.1 allowed.2)) good
      intro book next held effect
      exact ⟨url_effect_shelf _ book next held.1 effect, (url_effect_listed _ book next held.1 effect).trans held.2⟩)
    both
  exact listed_in_force _ _ _ _ kept.1 kept.2 once all

def hostAndAddress : List Str := [sampleName, [49, 46, 50, 46, 51, 46, 52]]

theorem list_stays_in_force_sample :
    InForce hostAndAddress false (fwAppendUrls (run step EmsFw.init [.start (some 9300) true]) hostAndAddress false)
      (run step (fwAppendUrls (run step EmsFw.init [.start (some 9300) true]) hostAndAddress false) [.schedule 5]) :=
  list_stays_in_force _ _ _ _ (by decide) (by decide +kernel)
    (by decide +kernel)

-- 10.0.0.0/8 loses its mask at the first trigger, and is not found again.
def netmask : List Str := [[49, 48, 46, 48, 46, 48, 46, 48, 47, 56]]

theorem netmask_left_behind : ¬∀ before names isblack between,
    (∀ event ∈ between, keepsLists event = true) → Single names (run step EmsFw.init before).whitelist →
    InForce names isblack (fwAppendUrls (run step EmsFw.init before) names isblack)
      (run step (fwAppendUrls (run step EmsFw.init before) names isblack) between) := by
  intro inverse
  have force := inverse [.start (some 9300) true] netmask false [.schedule 5] (by decide) (by decide +kernel)
  exact absurd (force.2.2.1 (newUrl 0 [49, 48, 46, 48, 46, 48, 46, 48, 47, 56] false) (by decide +kernel) (by decide)).1
    (by decide +kernel)

end Codec.Fw
