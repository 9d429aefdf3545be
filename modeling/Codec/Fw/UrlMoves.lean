import Codec.Fw.Effects
import Codec.Fw.Shelf

set_option autoImplicit false

namespace Codec.Fw

open Codec.Ems

local instance lawfulUrl : LawfulBEq Str := inferInstance

def DnsUrl.MayRename (url : DnsUrl) (terms : Terms) : Prop := url.splits = true → terms.renames url.url url.renamed.url

def EmsFw.MayRenameAt (fw : EmsFw) (terms : Terms) (entry : Nat) : Prop := ∀ url, fw.url? entry = some url → url.MayRename terms

def Keeps (terms : Terms) (fw : EmsFw) : Event → Prop
  | .stop => terms.lists
  | .flush lists _ => fw.run = true → terms.lists ∧
      ∀ name ∈ lists.user ++ lists.white ++ lists.black, (newUrl 0 name false).MayRename terms
  | .addressAdd names => fw.run = true → terms.lists ∧ (terms.twice ∨ ∀ url ∈ fw.subdomain, url.url ∉ names)
  | .addressDel _ => terms.lists
  | .checkUrlWhitelist addr _ => fw.run = true → addr ≠ [] → terms.twice ∨ dnsFindUrl fw addr = none
  | .schedule _ => fw.sessBind.isSome → ∀ url ∈ fw.whitelist, url.MayRename terms
  | _ => True

instance (terms : Terms) [∀ old new, Decidable (terms.renames old new)] (url : DnsUrl) : Decidable (url.MayRename terms) :=
  inferInstanceAs (Decidable (_ → _))

instance (terms : Terms) [Decidable terms.lists] [Decidable terms.twice] [∀ old new, Decidable (terms.renames old new)]
    (fw : EmsFw) (event : Event) : Decidable (Keeps terms fw event) := by
  rcases event <;> unfold Keeps <;> infer_instance

section Moves

variable (terms : Terms)

theorem url_effects_one (book next : Catalog) (effect : UrlEffect terms book next) : UrlEffects terms book next :=
  .single effect

theorem url_effects_same (book next : Catalog) (same : next = book) : UrlEffects terms book next := same ▸ .refl

variable (enable : Bool) (mem : List UInt8) (behind : Nat) (fw : EmsFw) (lists : Bwlist) (id : UInt16) (names : List Str) (isblack : Bool) (url : DnsUrl)

theorem append_urls_moves (listed : terms.lists) (free : terms.twice ∨ ∀ url ∈ fw.subdomain, url.url ∉ names) :
    UrlEffects terms fw.catalog (fwAppendUrls fw names isblack).catalog := by
  induction names generalizing fw with
  | nil => exact .refl
  | cons name rest ih =>
    have later : terms.twice ∨ ∀ url ∈ fw.subdomain, url.url ∉ rest :=
      free.imp_right fun clear url there inside => clear url there (List.mem_cons_of_mem name inside)
    change UrlEffects _ _ (fwAppendUrls _ rest _).catalog
    rw [fwAppendUrl]
    cases found : findUrl _ name with
    | some url => exact ih fw later
    | none =>
      have added : UrlEffect _ _ (fw.catalog.append name _) :=
        .append name isblack listed found
          (free.imp_right fun clear url there same => clear url there (same ▸ List.mem_cons_self))
      apply (url_effects_one _ _ _ added).trans
      exact ih
        { fw with
          hashUrl := hashInsert _ name _
          whitelist := fw.whitelist ++ [newUrl _ name _]
          nextUrl := fw.nextUrl + 1 } later

theorem remove_urls_moves (listed : terms.lists) : UrlEffects terms fw.catalog (fwRemoveUrls fw names).catalog := by
  induction names generalizing fw with
  | nil => exact .refl
  | cons name rest ih =>
    change UrlEffects _ _ (fwRemoveUrls _ rest).catalog
    rw [fwRemoveUrl]
    cases found : findUrl _ name with
    | none => exact ih fw
    | some url =>
      have removed : UrlEffect _ _ (fw.catalog.remove url) := .remove url listed (List.mem_of_find?_eq_some found)
      exact (url_effects_one _ _ _ removed).trans (ih (fw.removeUrl url))

theorem subdomain_append_catalog (name : Str) (isblack : Bool) :
    (fwDnsSubdomainAppend fw (newUrl fw.nextUrl name isblack)).catalog = (fw.catalog.addSub name isblack).evict := by
  rw [fwDnsSubdomainAppend, Catalog.evict]
  by_cases full : fw.nSubdomain + 1 > maxSubDomain
  · rw [if_pos full, if_pos (show (fw.catalog.addSub name _).nSubdomain > maxSubDomain from full)]
    have same : (fw.subdomain ++ [{ newUrl fw.nextUrl name isblack with subdomain := true }]).head? =
        (fw.catalog.addSub name isblack).subdomain.head? := rfl
    rw [same]
    cases (fw.catalog.addSub name isblack).subdomain.head? with
    | none => rfl
    | some oldest => rfl
  · rw [if_neg full, if_neg (show ¬(fw.catalog.addSub name _).nSubdomain > maxSubDomain from full)]
    rfl

theorem edit_found (id : Nat) (change : DnsUrl → DnsUrl) (url : DnsUrl) (found : fw.url? id = some url)
    (same : ∀ url, url.id = id → (change url).id = id) : (fw.editUrl id change).url? id = some (change url) := by
  rw [edit_url_find fw id id _ same, found, Option.map_some, if_pos (url_mem fw id url found).2]

theorem update_url_addr_moves (found : fw.url? url.id = some url) :
    UrlEffects terms fw.catalog (dnsUpdateUrlAddr mem behind fw url).catalog := by
  have expired (fw : EmsFw) (url : DnsUrl) (found : fw.url? url.id = some url) :
      UrlEffects terms fw.catalog (fw.editUrl url.id fun url => { url with expired := false }).catalog := by
    have hit : fw.catalog.url? _ = some url := found
    exact url_effects_one _ _ _ (.edit url hit _ ⟨rfl, rfl, rfl⟩ (.inl rfl))
  rw [dnsUpdateUrlAddr]
  cases dnsGetAllAddress mem _ _ with
  | none => exact url_effects_same _ _ _ rfl
  | some addr =>
    by_cases empty : addr = []
    · simp only [if_pos empty]
      exact expired fw url found
    · simp only [if_neg empty, dnsApplyNewAddress]
      split
      · exact expired fw url found
      · have hit : fw.catalog.url? _ = some url := found
        have applied : UrlEffect terms _
            _ :=
          .readdress url hit (fun url => { url with addr := addr }) ⟨rfl, rfl⟩ (.inl rfl)
        apply (url_effects_one _ _ _ applied).trans
        have still := edit_found fw _ (fun url => { url with addr := addr }) url found fun _ own => own
        exact expired (fwUrlSetFree ((fwUrlSetFree fw url false).editUrl _ fun url => { url with addr := addr })
          _ true) { url with addr := addr } still

theorem round_may_rename (entry : Nat) (next : EmsFw × UInt16)
    (round : Round fw id entry next) (other : Nat) (may : fw.MayRenameAt terms other) : next.1.MayRenameAt terms other := by
  have edited (change : DnsUrl → DnsUrl) (url : DnsUrl) (found : fw.url? entry = some url)
      (same : ∀ url, url.id = entry → (change url).id = entry)
      (keeps : url.MayRename terms → (change url).MayRename terms) : (fw.editUrl entry change).MayRenameAt terms other := by
    intro after hit
    rw [edit_url_find fw _ _ _ same] at hit
    obtain ⟨old, there, shape⟩ := Option.map_eq_some_iff.mp hit
    have kept := may old there
    by_cases own : old.id = entry
    · rw [if_pos own] at shape
      rw [← shape]
      rw [(url_mem fw _ old there).2] at own
      rw [own, found] at there
      rw [← Option.some.inj there] at kept ⊢
      exact keeps kept
    · rw [if_neg own] at shape
      rw [← shape]
      exact kept
  have fixed (url : DnsUrl) (plain : url.ipaddress = true) : url.MayRename terms := by
    intro splits
    simp [DnsUrl.splits, plain] at splits
  cases round with
  | skip _ => exact may
  | mark url found quiet mask empty =>
    have named := (url_mem fw _ url found).2
    exact edited _ url found (fun _ _ => named) fun kept => kept
  | expire url found full => exact edited _ url found (fun _ own => own) fun kept => kept
  | rename url found splits =>
    have named := (url_mem fw _ url found).2
    exact edited _ url found (fun _ _ => named) fun _ => fixed _ rfl
  | fix url next found quiet addr empty shape =>
    have named := (url_mem fw _ url found).2
    have kept : next.id = entry ∧ next.ipaddress = true := by
      rcases shape with same | ⟨_, same⟩
      · rw [same]
        exact ⟨named, rfl⟩
      · rw [same]
        exact ⟨named, rfl⟩
    exact edited _ url found (fun _ _ => kept.1) fun _ => fixed next kept.2
  | ask url found asks =>
    have named := (url_mem fw _ url found).2
    exact edited _ url found (fun _ _ => named) fun kept => kept

theorem empty_rules (empty : url.addr = []) : url.rules = [] := by
  rw [DnsUrl.rules, empty]
  rfl

theorem round_moves (entry : Nat) (next : EmsFw × UInt16) (round : Round fw id entry next)
    (may : fw.MayRenameAt terms entry) : UrlEffects terms fw.catalog next.1.catalog := by
  cases round with
  | skip _ => exact .refl
  | mark url found quiet mask empty =>
    obtain ⟨_, own⟩ := url_mem fw _ url found
    subst own
    have hit : fw.catalog.url? _ = some url := found
    have bare : ({ url with mask := mask } : DnsUrl).rules = url.rules := by
      rw [empty_rules url empty]
      exact empty_rules _ empty
    exact url_effects_one _ _ _ (.edit url hit _ ⟨rfl, rfl, bare⟩ (.inl rfl))
  | expire url found full =>
    obtain ⟨_, own⟩ := url_mem fw _ url found
    subst own
    have hit : fw.catalog.url? _ = some url := found
    exact url_effects_one _ _ _ (.edit url hit _ ⟨rfl, rfl, rfl⟩ (.inl rfl))
  | rename url found splits =>
    obtain ⟨_, own⟩ := url_mem fw _ url found
    subst own
    have hit : fw.catalog.url? _ = some url := found
    have empty := (splits_part url splits).2
    have bare : url.renamed.rules = url.rules := by
      rw [empty_rules url empty]
      exact empty_rules _ empty
    exact url_effects_one _ _ _
      (.edit url hit _ ⟨rfl, rfl, bare⟩ (.inr (may url found splits)))
  | fix url next found quiet addr empty shape =>
    obtain ⟨_, own⟩ := url_mem fw _ url found
    subst own
    have hit : fw.catalog.url? _ = some url := found
    have kept : (next.id = url.id ∧ next.subdomain = url.subdomain) ∧
        (next.url = url.url ∨ terms.renames url.url next.url) := by
      rcases shape with same | ⟨splits, same⟩
      · rw [same]
        exact ⟨⟨rfl, rfl⟩, .inl rfl⟩
      · rw [same]
        exact ⟨⟨rfl, rfl⟩, .inr (may url found splits)⟩
    have added : UrlEffect _ _
        _ :=
      .readdress url hit (fun _ => next) kept.1 kept.2
    rw [empty_rules url empty, List.diff_nil] at added
    exact url_effects_one _ _ _ added
  | ask url found asks =>
    obtain ⟨_, own⟩ := url_mem fw _ url found
    subst own
    have hit : fw.catalog.url? _ = some url := found
    exact url_effects_one _ _ _ (.edit url hit _ ⟨rfl, rfl, rfl⟩ (.inl rfl))

theorem rounds_moves (entries : List Nat) (state : EmsFw × UInt16) (may : ∀ entry ∈ entries, state.1.MayRenameAt terms entry) :
    UrlEffects terms state.1.catalog (entries.foldl trigerUrl state).1.catalog := by
  induction entries generalizing state with
  | nil => exact .refl
  | cons entry rest ih =>
    have round := triger_url_round state.1 state.2 entry
    apply (round_moves _ _ _ _ _ round (may _ List.mem_cons_self)).trans
    apply ih
    intro other later
    exact round_may_rename _ _ _ _ _ round _ (may _ (List.mem_cons_of_mem _ later))

theorem client_set_write_catalog (wr : Bool) : (fwDnsClientSetWrite fw wr).catalog = fw.catalog := by
  rw [fwDnsClientSetWrite]
  cases fw.sessDns with
  | none => rfl
  | some sess => rfl

theorem may_rename_whitelist (may : ∀ url ∈ fw.whitelist, url.MayRename terms) (entry : Nat)
    (listed : entry ∈ fw.whitelist.map (·.id)) : fw.MayRenameAt terms entry := by
  obtain ⟨url, member, same⟩ := List.mem_map.mp listed
  intro other hit
  rw [EmsFw.url?, EmsFw.urls, List.find?_append] at hit
  cases found : fw.whitelist.find? (·.id = entry) with
  | none => exact absurd same (of_decide_eq_false (eq_false_of_ne_true (List.find?_eq_none.mp found url member)))
  | some first =>
    rw [found, Option.some_or] at hit
    exact may _ (List.mem_of_find?_eq_some (found.trans hit))

theorem query_triger_moves (may : ∀ url ∈ fw.whitelist, url.MayRename terms) :
    UrlEffects terms fw.catalog (fwDnsQueryTriger fw id).catalog := by
  have rounds := rounds_moves _ _ (fw, id) (may_rename_whitelist _ fw may)
  have expired := rounds.trans (url_effects_one _ _ _ .expire)
  rw [fwDnsQueryTriger]
  split
  · exact expired
  · rw [client_set_write_catalog]
    exact expired

theorem append_urls_from (member : url ∈ (fwAppendUrls fw names isblack).whitelist) :
    url ∈ fw.whitelist ∨ ∃ name ∈ names, ∃ id, url = newUrl id name isblack := by
  induction names generalizing fw with
  | nil => exact .inl member
  | cons name rest ih =>
    rcases ih _ member with old | ⟨other, listed, shape⟩
    · rw [fwAppendUrl] at old
      cases found : findUrl _ name with
      | some _ =>
        rw [found] at old
        exact .inl old
      | none =>
        rw [found] at old
        rcases List.mem_append.mp old with older | single
        · exact .inl older
        · exact .inr ⟨name, List.mem_cons_self, fw.nextUrl, List.mem_singleton.mp single⟩
    · exact .inr ⟨other, List.mem_cons_of_mem name listed, shape⟩

theorem refill_from (member : url ∈ (refill fw lists).whitelist) :
    ∃ name ∈ lists.user ++ lists.white ++ lists.black, ∃ id isblack, url = newUrl id name isblack := by
  rcases append_urls_from _ _ true url member with old | ⟨name, listed, id, shape⟩
  · rcases append_urls_from _ _ _ url old with older | ⟨name, listed, id, shape⟩
    · rcases append_urls_from _ _ _ url older with empty | ⟨name, listed, id, shape⟩
      · cases empty
      · exact ⟨name, List.mem_append_left _ (List.mem_append_left _ listed), id, false, shape⟩
    · exact ⟨name, List.mem_append_left _ (List.mem_append_right _ listed), id, false, shape⟩
  · exact ⟨name, List.mem_append_right _ listed, id, true, shape⟩

theorem append_urls_subdomain : (fwAppendUrls fw names isblack).subdomain = fw.subdomain := by
  induction names generalizing fw with
  | nil => rfl
  | cons name rest ih =>
    apply (ih _).trans
    rw [fwAppendUrl]
    cases findUrl _ name with
    | none => rfl
    | some url => rfl

theorem refill_moves (listed : terms.lists) : UrlEffects terms fw.catalog (refill fw lists).catalog := by
  have into (fw : EmsFw) (none : fw.subdomain = []) (names : List Str) (isblack : Bool) :
      UrlEffects terms fw.catalog (fwAppendUrls fw names isblack).catalog := by
    apply append_urls_moves _ fw _ _ listed
    apply Or.inr
    intro url there
    rw [none] at there
    cases there
  apply (url_effects_one _ _ _ (.clear listed)).trans
  apply (into { fwWhitelistClear fw with rules := [] } rfl _ _).trans
  apply (into _ (append_urls_subdomain _ _ _) _ _).trans
  exact into _ ((append_urls_subdomain _ _ _).trans (append_urls_subdomain _ _ _)) _ true

theorem flush_moves (listed : terms.lists)
    (may : ∀ name ∈ lists.user ++ lists.white ++ lists.black, (newUrl 0 name false).MayRename terms) :
    UrlEffects terms fw.catalog (fwFlushWhiltelist fw lists id).catalog := by
  apply (refill_moves _ fw _ listed).trans
  apply query_triger_moves
  intro url member
  obtain ⟨name, inside, number, isblack, shape⟩ := refill_from fw _ url member
  rw [shape]
  exact may name inside

theorem find_url_hit (key : Str) (url : DnsUrl) (found : dnsFindUrl fw key = some url) : fw.url? url.id = some url := by
  obtain ⟨id, _, hit⟩ := Option.bind_eq_some_iff.mp found
  rw [(url_mem fw id url hit).2]
  exact hit

theorem run_lru_moves (found : fw.url? url.id = some url) :
    UrlEffects terms fw.catalog (if url.subdomain then fw.runLru url else fw).catalog := by
  by_cases sub : url.subdomain = true
  · rw [if_pos sub]
    have hit : fw.catalog.url? _ = some url := found
    exact url_effects_one _ _ _ (.lru url hit sub)
  · rw [if_neg sub]
    exact .refl

theorem subdomain_append_moves (name : Str) (isblack : Bool) (unknown : terms.twice ∨ dnsFindUrl fw name = none) :
    UrlEffects terms fw.catalog (fwDnsSubdomainAppend fw (newUrl fw.nextUrl name isblack)).catalog := by
  rw [subdomain_append_catalog]
  have free : terms.twice ∨ fw.catalog.find name = none := unknown
  exact url_effects_one _ _ _ (.subdomain name _ free)

theorem url_in_whitelist_moves (key : Str) (id : UInt16) :
    UrlEffects terms fw.catalog (fwUrlInWhitelist enable fw key id).catalog := by
  rw [fwUrlInWhitelist]
  cases found : dnsFindUrl fw key with
  | some url => exact run_lru_moves _ fw url (find_url_hit fw key url found)
  | none =>
    cases fwDnsUrlSelect fw key with
    | none => exact .refl
    | some parent =>
      cases enable with
      | false => exact .refl
      | true =>
        simp only [if_pos]
        rw [client_set_write_catalog]
        exact subdomain_append_moves _ fw key _ (.inr found)

theorem subdomain_append_new (shelf : Shelf fw.catalog) (name : Str) (isblack : Bool) (url : DnsUrl)
    (found : (fwDnsSubdomainAppend fw (newUrl fw.nextUrl name isblack)).url? fw.nextUrl = some url) : url.addr = [] := by
  have hit : (fwDnsSubdomainAppend fw _).catalog.url? _ = some url := found
  rw [subdomain_append_catalog] at hit
  obtain ⟨member, own⟩ := catalog_url_mem _ _ _ hit
  have inside : url ∈ (fw.catalog.addSub name isblack).urls := by
    rw [Catalog.evict] at member
    split at member
    · split at member
      · exact member
      · rw [remove_urls] at member
        exact List.mem_of_mem_filter member
    · exact member
  have shape : (fw.catalog.addSub name _).urls =
      fw.catalog.urls ++ [{ newUrl _ name isblack with subdomain := true }] := (List.append_assoc _ _ _).symm
  rw [shape] at inside
  rcases List.mem_append.mp inside with old | single
  · have below := shelf.below url old
    rw [own] at below
    exact absurd below (Nat.lt_irrefl _)
  · rw [List.mem_singleton.mp single]
    rfl

theorem edit_absent (id : Nat) (change : DnsUrl → DnsUrl) (absent : fw.url? id = none) : fw.editUrl id change = fw := by
  have apart (url : DnsUrl) (there : url ∈ fw.urls) : ¬url.id = id :=
    of_decide_eq_false (eq_false_of_ne_true (List.find?_eq_none.mp absent url there))
  have kept (urls : List _) (inside : ∀ url ∈ urls, url ∈ fw.urls) :
      urls.map (fun url => if url.id = id then change url else url) = urls := by
    apply Eq.trans _ (List.map_id urls)
    apply List.map_congr_left
    intro url there
    exact if_neg (apart url (inside url there))
  rw [EmsFw.editUrl, kept _ fun url => List.mem_append_left _,
    kept _ fun url => List.mem_append_right _]

theorem whitelist_insert_moves (shelf : Shelf fw.catalog) (white : Str) (id : UInt16)
    (unknown : terms.twice ∨ dnsFindUrl fw white = none) :
    UrlEffects terms fw.catalog (fwUrlWhitelistInsert fw white id).catalog := by
  have added := subdomain_append_moves _ fw _ false unknown
  have new := subdomain_append_new fw shelf white false
  rw [fwUrlWhitelistInsert]
  generalize fwDnsSubdomainAppend fw _ = next at added new
  cases inetAddr _ with
  | none =>
    rw [client_set_write_catalog]
    exact added
  | some addr =>
    simp only
    cases found : next.url? _ with
    | none =>
      rw [edit_absent next _ _ found, found]
      exact added
    | some url =>
      have own := (url_mem next _ url found).2
      have hit : next.catalog.url? url.id = some url := by
        rw [own]
        exact found
      rw [edit_found next _ (fun url => { url with addr := [addr], ipaddress := true }) url found
        fun _ same => same]
      have fixed : UrlEffect terms _
          _ :=
        .readdress url hit (fun url => { url with addr := [addr], ipaddress := true }) ⟨rfl, rfl⟩ (.inl rfl)
      rw [empty_rules url (new url found), List.diff_nil, own] at fixed
      exact added.trans (url_effects_one _ _ _ fixed)

theorem touch_moves (id : Nat) : UrlEffects terms fw.catalog (fw.touch id).catalog := by
  rw [EmsFw.touch]
  cases found : fw.url? id with
  | none => exact .refl
  | some url =>
    apply run_lru_moves
    rw [(url_mem fw id url found).2]
    exact found

theorem filter_known_moves (querySelf : Bool) (fw : EmsFw) (url : DnsUrl) (found : fw.url? url.id = some url) :
    UrlEffects terms fw.catalog (filterKnown mem behind querySelf fw url).catalog := by
  rw [filterKnown]
  split
  · have updated := update_url_addr_moves terms mem behind fw url found
    rw [EmsFw.andThen]
    split
    · exact updated.trans (touch_moves _ _ _)
    · exact updated
  · exact touch_moves _ fw _

theorem filter_new_moves (qname : Str) (blacklist : Bool) (unknown : dnsFindUrl fw qname = none) :
    UrlEffects terms fw.catalog (filterNew mem behind fw qname blacklist).catalog := by
  have added := subdomain_append_moves terms fw _ blacklist (.inr unknown)
  rw [filterNew]
  cases found : (fwDnsSubdomainAppend fw _).url? _ with
  | none => exact added
  | some url =>
    apply added.trans
    apply update_url_addr_moves
    rw [(url_mem _ _ url found).2]
    exact found

theorem parse_and_filter_moves (querySelf : Bool) (fw : EmsFw) :
    UrlEffects terms fw.catalog (fwDnsParseAndFilter enable mem querySelf fw).catalog := by
  rw [fwDnsParseAndFilter]
  cases fwDnsGetQuestion mem with
  | none => exact .refl
  | some question =>
    obtain ⟨qname, behind⟩ := question
    simp only
    cases found : dnsFindUrl fw _ with
    | some url => exact filter_known_moves _ mem _ _ fw url (find_url_hit fw _ url found)
    | none =>
      cases fwDnsUrlSelect fw _ with
      | none => exact .refl
      | some parent =>
        cases enable with
        | false => exact .refl
        | true => exact filter_new_moves _ mem _ fw _ _ found

theorem give_back_catalog (user : DnsUser) : (fw.giveBack user).catalog = fw.catalog := by
  rw [EmsFw.giveBack, fwDnsServerSetWrite]
  cases user.querySelf with
  | true => rfl
  | false =>
    cases fw.sessBind with
    | none => rfl
    | some sess => rfl

theorem fwd_filter_moves (mem data : List UInt8) (answer : Option Answer) :
    UrlEffects terms fw.catalog (fwDnsFwdFilter enable fw mem data answer).catalog := by
  rw [fwDnsFwdFilter]
  cases dnsFindUser fw _ with
  | none => exact .refl
  | some user =>
    have filtered : UrlEffects terms fw.catalog
        (filterReply enable mem user.querySelf (fw.takeReply user.id data answer)).catalog := by
      rw [filterReply]
      split
      · exact parse_and_filter_moves _ _ mem _ (fw.takeReply _ data _)
      · exact .refl
    simp only
    rw [EmsFw.andThen]
    split
    · rw [give_back_catalog]
      exact filtered
    · exact filtered

theorem fwd_rsp_moves (query : Nat) (datagram : List UInt8) :
    UrlEffects terms fw.catalog (fwDnsFwdRsp enable fw query datagram).catalog := by
  rw [fwDnsFwdRsp]
  cases fw.sessDns with
  | none => exact .refl
  | some sess =>
    by_cases empty : datagram = []
    · simp only [if_pos empty]
      exact .refl
    · simp only [if_neg empty]
      exact fwd_filter_moves _ _ { fw with sessDns := some _ } _ _ _

end Moves

section Frames

variable (fw : EmsFw)

theorem dns_fwd_catalog (id : UInt16) (addr : Addr) (port : UInt16) (data : List UInt8) :
    (fwDnsFwd fw id addr port data).catalog = fw.catalog := by
  rw [fwDnsFwd]
  cases dnsFindUser fw id with
  | none =>
    rw [client_set_write_catalog]
    rfl
  | some user =>
    rw [client_set_write_catalog]
    rfl

theorem dns_request_catalog (addr : Addr) (port : UInt16) (datagram : List UInt8) :
    (fwDnsRequest fw addr port datagram).catalog = fw.catalog := by
  rw [fwDnsRequest]
  cases fw.sessBind with
  | none => rfl
  | some sess =>
    by_cases empty : datagram = []
    · simp only [if_pos empty]
    · simp only [if_neg empty]
      rw [dns_fwd_catalog]
      rfl

theorem deliver_catalog (ids : List Nat) (fw : EmsFw) : (ids.foldl deliver fw).catalog = fw.catalog := by
  induction ids generalizing fw with
  | nil => rfl
  | cons id rest ih =>
    apply (ih _).trans
    rw [deliver]
    cases fw.user? id with
    | none => rfl
    | some user => rfl

theorem dns_response_catalog (sends : Nat) : (fwDnsResponse fw sends).catalog = fw.catalog := by
  have delivered := deliver_catalog (fw.out.take sends) fw
  rw [fwDnsResponse]
  generalize (fw.out.take _).foldl _ fw = next at delivered
  split
  · rw [fwDnsServerSetWrite]
    cases next.sessBind with
    | none => exact delivered
    | some sess => exact delivered
  · exact delivered

theorem forward_catalog (ids : List Nat) (fw : EmsFw) : (ids.foldl forward fw).catalog = fw.catalog := by
  induction ids generalizing fw with
  | nil => rfl
  | cons id rest ih =>
    apply (ih _).trans
    rw [forward]
    cases fw.user? id with
    | none => rfl
    | some user => rfl

theorem client_set_read_catalog (rd : Bool) : (fwDnsClientSetRead fw rd).catalog = fw.catalog := by
  rw [fwDnsClientSetRead]
  cases fw.sessDns with
  | none => rfl
  | some sess => rfl

theorem fwd_req_catalog (sends : Nat) : (fwDnsFwdReq fw sends).catalog = fw.catalog := by
  have forwarded := forward_catalog (fw.fwd.take sends) fw
  rw [fwDnsFwdReq]
  generalize (fw.fwd.take _).foldl _ fw = next at forwarded
  have readable : (if next.wait.isEmpty then next else fwDnsClientSetRead next true).catalog = fw.catalog := by
    split
    · exact forwarded
    · exact (client_set_read_catalog next true).trans forwarded
  generalize (if next.wait.isEmpty then next else fwDnsClientSetRead next true) = last at readable
  rw [EmsFw.andThen]
  split
  · split
    · exact (client_set_write_catalog last _).trans readable
    · exact readable
  · exact readable

theorem fwd_timeout_catalog (id : Nat) : (dnsFwdTimeout fw id).catalog = fw.catalog := by
  rw [dnsFwdTimeout]
  cases fw.user? id with
  | none => rfl
  | some user =>
    simp only
    split
    · rfl
    · rfl

end Frames

theorem handle_moves (terms : Terms) (fw : EmsFw) (shelf : Shelf fw.catalog) (event : Event)
    (kept : Keeps terms fw event) : UrlEffects terms fw.catalog (handle fw event).catalog := by
  have same (fw next : EmsFw) (equal : next.catalog = fw.catalog) : UrlEffects _ _ _ := url_effects_same terms _ _ equal
  cases event with
  | start bind connect =>
    rw [handle]
    split
    · exact .refl
    · exact .refl
  | stop =>
    rw [handle]
    split
    · exact url_effects_one _ _ _ (.clear kept)
    · exact .refl
  | flush lists id =>
    rw [handle]
    split
    · rename_i run
      exact flush_moves _ fw _ id (kept run).1 (kept run).2
    · exact .refl
  | addressAdd names =>
    rw [handle]
    split
    · rename_i run
      exact append_urls_moves _ fw _ _ (kept run).1 (kept run).2
    · exact .refl
  | addressDel names =>
    rw [handle]
    split
    · exact remove_urls_moves _ fw _ kept
    · exact .refl
  | checkUrlWhitelist addr id =>
    rw [handle]
    split
    · rename_i given
      exact whitelist_insert_moves _ fw shelf addr id (kept given.1 given.2)
    · exact .refl
  | checkSubdomain enable url id =>
    rw [handle]
    split
    · exact url_in_whitelist_moves _ _ fw url id
    · exact .refl
  | request addr port datagram => exact same _ _ (dns_request_catalog fw addr port _)
  | response sends =>
    rw [handle]
    split
    · exact same _ _ (dns_response_catalog fw _)
    · exact .refl
  | serverErr bind =>
    rw [handle]
    split
    · exact .refl
    · exact .refl
  | reply enable query datagram => exact fwd_rsp_moves _ _ fw _ _
  | send sends =>
    rw [handle]
    split
    · exact same _ _ (fwd_req_catalog fw _)
    · exact .refl
  | clientErr connect =>
    rw [handle]
    split
    · exact .refl
    · exact .refl
  | timeout user => exact same _ _ (fwd_timeout_catalog fw user)
  | schedule id =>
    rw [handle]
    split
    · rename_i bound
      exact query_triger_moves _ fw id (kept bound)
    · exact .refl

end Codec.Fw
