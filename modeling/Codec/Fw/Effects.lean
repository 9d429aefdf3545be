import Codec.Fw.UrlSpec

set_option autoImplicit false

namespace Codec.Fw

open Codec.Ems

section Frames

variable (fw : EmsFw)

theorem client_set_write_ledger (wr : Bool) : (fwDnsClientSetWrite fw wr).ledger = fw.ledger := by
  rw [fwDnsClientSetWrite]
  cases fw.sessDns with
  | none => rfl
  | some sess => rfl

theorem client_set_read_ledger (rd : Bool) : (fwDnsClientSetRead fw rd).ledger = fw.ledger := by
  rw [fwDnsClientSetRead]
  cases fw.sessDns with
  | none => rfl
  | some sess => rfl

theorem server_set_write_ledger (wr : Bool) : (fwDnsServerSetWrite fw wr).ledger = fw.ledger := by
  rw [fwDnsServerSetWrite]
  cases fw.sessBind with
  | none => rfl
  | some sess => rfl

theorem append_urls_ledger (names : List Str) (isblack : Bool) : (fwAppendUrls fw names isblack).ledger = fw.ledger := by
  induction names generalizing fw with
  | nil => rfl
  | cons name rest ih =>
    apply (ih _).trans
    rw [fwAppendUrl]
    cases findUrl _ name with
    | none => rfl
    | some url => rfl

theorem remove_urls_ledger (names : List Str) : (fwRemoveUrls fw names).ledger = fw.ledger := by
  induction names generalizing fw with
  | nil => rfl
  | cons name rest ih =>
    apply (ih _).trans
    rw [fwRemoveUrl]
    cases findUrl _ name with
    | none => rfl
    | some url => rfl

theorem subdomain_append_ledger (url : DnsUrl) : (fwDnsSubdomainAppend fw url).ledger = fw.ledger := by
  rw [fwDnsSubdomainAppend]
  split
  · split
    · rfl
    · rfl
  · rfl

theorem update_url_addr_ledger (mem : List UInt8) (behind : Nat) (url : DnsUrl) :
    (dnsUpdateUrlAddr mem behind fw url).ledger = fw.ledger := by
  have applied (addr : List Addr) : (dnsApplyNewAddress fw url addr).ledger = fw.ledger := by
    rw [dnsApplyNewAddress]
    split
    · rfl
    · rfl
  rw [dnsUpdateUrlAddr]
  cases dnsGetAllAddress mem _ _ with
  | none => rfl
  | some addr =>
    by_cases empty : addr = []
    · simp only [if_pos empty]
      rfl
    · simp only [if_neg empty]
      exact applied addr

theorem touch_ledger (id : Nat) : (fw.touch id).ledger = fw.ledger := by
  rw [EmsFw.touch]
  cases fw.url? id with
  | none => rfl
  | some url =>
    by_cases sub : url.subdomain = true
    · simp only [if_pos sub]
      rfl
    · simp only [if_neg sub]

theorem filter_known_ledger (mem : List UInt8) (behind : Nat) (querySelf : Bool) (url : DnsUrl) :
    (filterKnown mem behind querySelf fw url).ledger = fw.ledger := by
  have updated := update_url_addr_ledger fw mem behind url
  rw [filterKnown]
  split
  · rw [EmsFw.andThen]
    split
    · exact (touch_ledger _ _).trans updated
    · exact updated
  · exact touch_ledger fw _

theorem filter_new_ledger (mem : List UInt8) (behind : Nat) (qname : Str) (blacklist : Bool) :
    (filterNew mem behind fw qname blacklist).ledger = fw.ledger := by
  have appended := subdomain_append_ledger fw (newUrl fw.nextUrl qname blacklist)
  rw [filterNew]
  cases (fwDnsSubdomainAppend fw _).url? _ with
  | none => exact appended
  | some url => exact (update_url_addr_ledger _ mem _ url).trans appended

theorem parse_and_filter_ledger (enable : Bool) (mem : List UInt8) (querySelf : Bool) :
    (fwDnsParseAndFilter enable mem querySelf fw).ledger = fw.ledger := by
  rw [fwDnsParseAndFilter]
  split
  · rfl
  · rename_i qname behind _
    split
    · exact filter_known_ledger fw mem _ _ _
    · split
      · rfl
      · split
        · exact filter_new_ledger fw mem _ _ _
        · rfl

theorem and_then_ledger (next : EmsFw → EmsFw) (same : ∀ fw, (next fw).ledger = fw.ledger) :
    (fw.andThen next).ledger = fw.ledger := by
  rw [EmsFw.andThen]
  split
  · exact same fw
  · rfl

end Frames

def idsFrom : UInt16 → Nat → List UInt16
  | _, 0 => []
  | id, count + 1 => id :: idsFrom (id + 1) count

def EmsFw.asked (fw : EmsFw) (id : UInt16) : List UInt16 := idsFrom id ((fw.whitelist.map (·.id)).countP fw.asksAt)

theorem round_asks (fw : EmsFw) (id : UInt16) (entry : Nat) (next : EmsFw × UInt16) (round : Round fw id entry next)
    (other : Nat) : next.1.asksAt other = fw.asksAt other := by
  have edited (change : DnsUrl → DnsUrl) (url : DnsUrl) (found : fw.url? entry = some url)
      (same : ∀ url, url.id = entry → (change url).id = entry) (keeps : (change url).asks = url.asks) :
      (fw.editUrl entry change).asksAt other = fw.asksAt other := by
    rw [EmsFw.asksAt, EmsFw.asksAt, edit_url_find fw _ _ _ same]
    by_cases own : other = entry
    · have named := (url_mem fw _ url found).2
      rw [own, found, Option.map_some, if_pos named, Option.any_some, Option.any_some, keeps]
    · cases there : fw.url? _ with
      | none => rfl
      | some old =>
        have named := (url_mem fw _ old there).2
        rw [Option.map_some, if_neg (fun same => own (named.symm.trans same))]
  cases round with
  | skip _ => rfl
  | mark url found quiet mask empty =>
    have named := (url_mem fw _ url found).2
    exact edited _ url found (fun _ _ => named) rfl
  | expire url found full => exact edited _ url found (fun _ own => own) rfl
  | rename url found splits =>
    have named := (url_mem fw _ url found).2
    apply edited (fun _ => url.renamed) url found (fun _ _ => named)
    rw [asks_plain url (splits_part url splits).1]
    simp [DnsUrl.asks, DnsUrl.renamed]
  | fix url next found quiet addr empty shape =>
    have named := (url_mem fw _ url found).2
    have kept : next.id = entry ∧ next.asks = false := by
      rcases shape with same | ⟨_, same⟩
      · rw [same]
        exact ⟨named, by simp [DnsUrl.asks]⟩
      · rw [same]
        exact ⟨named, by simp [DnsUrl.asks]⟩
    exact edited _ url found (fun _ _ => kept.1) (kept.2.trans quiet.symm)
  | ask url found asks =>
    have named := (url_mem fw _ url found).2
    exact edited _ url found (fun _ _ => named) rfl

end Codec.Fw
