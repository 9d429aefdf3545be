import Codec.Fw.Dns
import Codec.Fw.Ledger

set_option autoImplicit false

namespace Codec.Fw

variable (fw : EmsFw) (url : DnsUrl)

theorem edit_url_find (id other : Nat) (change : DnsUrl → DnsUrl)
    (same : ∀ url, url.id = id → (change url).id = id) :
    (fw.editUrl id change).url? other = (fw.url? other).map fun url => if url.id = id then change url else url := by
  have urls : (fw.editUrl id change).urls = fw.urls.map fun url => if url.id = id then change url else url := by
    simp only [EmsFw.urls, EmsFw.editUrl, List.map_append]
  have kept : ((fun url : DnsUrl => decide (url.id = other)) ∘ fun url => if url.id = id then change url else url) =
      fun url => decide (url.id = other) := by
    funext url
    by_cases own : url.id = id
    · rw [Function.comp_apply, if_pos own, same url own, own]
    · rw [Function.comp_apply, if_neg own]
  rw [EmsFw.url?, urls, List.find?_map, kept]
  rfl

theorem edit_url_twice (id : Nat) (first second : DnsUrl) (same : first.id = id) :
    (fw.editUrl id fun _ => first).editUrl id (fun _ => second) = fw.editUrl id fun _ => second := by
  have twice (urls : List _) :
      (urls.map fun url => if url.id = id then first else url).map (fun url => if url.id = id then second else url) =
        urls.map fun url => if url.id = id then second else url := by
    rw [List.map_map]
    apply List.map_congr_left
    intro url _
    by_cases own : url.id = id
    · simp [own, same]
    · simp [own]
  simp only [EmsFw.editUrl, twice]

theorem url_mem (id : Nat) (url : DnsUrl) (found : fw.url? id = some url) : url ∈ fw.urls ∧ url.id = id := by
  have same := List.find?_some found
  exact ⟨List.mem_of_find?_eq_some found, of_decide_eq_true same⟩

def DnsUrl.asks : Bool :=
  !url.ipaddress && url.addr.isEmpty && (maskPart url.url).isEmpty && (inetAddr url.url).isNone

def EmsFw.asksAt (entry : Nat) : Bool := (fw.url? entry).any DnsUrl.asks

def DnsUrl.renamed : DnsUrl :=
  { url with
    mask := emsAtoi (maskPart url.url)
    ipaddress := true
    url := addrPart url.url }

def DnsUrl.splits : Bool :=
  !url.ipaddress && url.addr.isEmpty && !(maskPart url.url).isEmpty &&
    decide (0 ≤ emsAtoi (maskPart url.url)) && decide (emsAtoi (maskPart url.url) ≤ 32)

theorem info_upt_plain (plain : maskPart url.url = []) : fwDnsUrlInfoUpt url = (true, url) := by
  simp only [fwDnsUrlInfoUpt, if_pos plain]

theorem info_upt_cases (split : maskPart url.url ≠ []) (empty : url.addr = []) (named : url.ipaddress = false) :
    (∃ mask, fwDnsUrlInfoUpt url = (false, { url with mask := mask })) ∨
      url.splits = true ∧ fwDnsUrlInfoUpt url = (true, url.renamed) := by
  by_cases bad : emsAtoi (maskPart url.url) < 0 ∨ emsAtoi (maskPart url.url) > 32
  · refine .inl ⟨emsAtoi (maskPart url.url), ?_⟩
    simp only [fwDnsUrlInfoUpt, if_neg split, if_pos bad]
  · refine .inr ⟨?_, ?_⟩
    · obtain ⟨low, high⟩ := not_or.mp bad
      simp [DnsUrl.splits, named, empty, split, Int.not_lt.mp low, Int.not_lt.mp high]
    · simp only [fwDnsUrlInfoUpt, if_neg split, if_neg bad, DnsUrl.renamed]

theorem splits_part (splits : url.splits = true) : maskPart url.url ≠ [] ∧ url.addr = [] := by
  simp only [DnsUrl.splits, Bool.and_eq_true, Bool.not_eq_true', List.isEmpty_iff, List.isEmpty_eq_false_iff] at splits
  exact ⟨splits.1.1.2, splits.1.1.1.2⟩

inductive Round (fw : EmsFw) (id : UInt16) (entry : Nat) : EmsFw × UInt16 → Prop where
  | skip (quiet : fw.asksAt entry = false) : Round fw id entry (fw, id)
  | mark (url : DnsUrl) (found : fw.url? entry = some url) (quiet : url.asks = false) (mask : Int)
      (empty : url.addr = []) : Round fw id entry (fw.editUrl entry fun _ => { url with mask := mask }, id)
  | expire (url : DnsUrl) (found : fw.url? entry = some url) (full : url.addr ≠ []) :
      Round fw id entry (fw.editUrl entry fun url => { url with expired := true }, id)
  | rename (url : DnsUrl) (found : fw.url? entry = some url) (splits : url.splits = true) :
      Round fw id entry (fw.editUrl entry fun _ => url.renamed, id)
  | fix (url next : DnsUrl) (found : fw.url? entry = some url) (quiet : url.asks = false) (addr : Addr)
      (empty : url.addr = [])
      (shape : next = { url with addr := [addr], ipaddress := true } ∨
        url.splits = true ∧ next = { url.renamed with addr := [addr] }) :
      Round fw id entry (fwUrlSetFree (fw.editUrl entry fun _ => next) next true, id)
  | ask (url : DnsUrl) (found : fw.url? entry = some url) (asks : url.asks = true) :
      Round fw id entry (fwDnsCreateUser (fw.editUrl entry fun _ => url) url.url id, id + 1)

theorem asks_plain (split : maskPart url.url ≠ []) : url.asks = false := by
  have full : (maskPart url.url).isEmpty = false := by
    cases text : maskPart _ with
    | nil => exact absurd text split
    | cons char rest => rfl
  rw [DnsUrl.asks, full]
  simp only [Bool.and_false, Bool.false_and]

theorem triger_url_round (id : UInt16) (entry : Nat) : Round fw id entry (trigerUrl (fw, id) entry) := by
  cases found : fw.url? entry with
  | none =>
    simp only [trigerUrl, found]
    exact .skip (by rw [EmsFw.asksAt, found]; rfl)
  | some url =>
    have own := (url_mem fw _ url found).2
    by_cases fixed : url.ipaddress = true
    · simp only [trigerUrl, found, if_pos fixed]
      exact .skip (by simp [EmsFw.asksAt, found, DnsUrl.asks, fixed])
    · have named : url.ipaddress = false := eq_false_of_ne_true fixed
      by_cases empty : url.addr = []
      · by_cases plain : maskPart url.url = []
        · have same := info_upt_plain url plain
          cases written : inetAddr url.url with
          | none =>
            have asks : url.asks = true := by simp [DnsUrl.asks, named, empty, plain, written]
            have next : trigerUrl (fw, id) entry =
                (fwDnsCreateUser (fw.editUrl entry fun _ => url) url.url id, id + 1) := by
              simp [trigerUrl, found, named, empty, same, written]
            rw [next]
            exact .ask url found asks
          | some addr =>
            have quiet : url.asks = false := by simp [DnsUrl.asks, written]
            have next : trigerUrl (fw, id) entry =
                (fwUrlSetFree (fw.editUrl entry fun _ => { url with addr := [addr], ipaddress := true })
                  { url with addr := [addr], ipaddress := true } true, id) := by
              simp [trigerUrl, found, named, empty, same, written, edit_url_twice fw _ url _ own]
            rw [next]
            exact .fix url _ found quiet addr empty (.inl rfl)
        · have quiet := asks_plain url plain
          rcases info_upt_cases url plain empty named with ⟨mask, bad⟩ | ⟨splits, renamed⟩
          · have next : trigerUrl (fw, id) entry = (fw.editUrl entry fun _ => { url with mask := mask }, id) := by
              simp [trigerUrl, found, named, empty, bad]
            rw [next]
            exact .mark url found quiet mask empty
          · cases written : inetAddr url.renamed.url with
            | none =>
              have next : trigerUrl (fw, id) entry = (fw.editUrl entry fun _ => url.renamed, id) := by
                simp [trigerUrl, found, named, empty, renamed, written]
                rfl
              rw [next]
              exact .rename url found splits
            | some addr =>
              have next : trigerUrl (fw, id) entry =
                  (fwUrlSetFree (fw.editUrl entry fun _ => { url.renamed with addr := [addr] })
                    { url.renamed with addr := [addr] } true, id) := by
                simp [trigerUrl, found, named, empty, renamed, written, edit_url_twice fw _ url.renamed _ own]
                rfl
              rw [next]
              exact .fix url _ found quiet addr empty (.inr ⟨splits, rfl⟩)
      · have next : trigerUrl (fw, id) entry = (fw.editUrl entry fun url => { url with expired := true }, id) := by
          simp [trigerUrl, found, named, empty]
        rw [next]
        exact .expire url found empty

end Codec.Fw
