import Codec.Fw.State

set_option autoImplicit false

namespace Codec.Fw

open Codec.Ems

variable (fw : EmsFw) (url : DnsUrl)

def DnsUrl.rules : List Rule :=
  (url.addr.filter (· ≠ 0)).map fun addr => ⟨url.blacklist, addr, url.mask, url.url⟩

-- fw_url_set_free, with iptables taken to succeed: -I adds a copy of each
-- rule at the head, -D deletes one.
def fwUrlSetFree (append : Bool) : EmsFw :=
  { fw with rules := if append then url.rules.reverse ++ fw.rules else fw.rules.diff url.rules }

def newUrl (id : Nat) (name : Str) (blacklist : Bool) : DnsUrl :=
  { id := id
    url := name
    addr := []
    mask := 32
    ipaddress := false
    expired := false
    subdomain := false
    blacklist := blacklist }

def findUrl (head : List DnsUrl) (key : Str) : Option DnsUrl := head.find? (·.url = key)

-- Taking an entry out of its queue and of the hash, before its rules go.
def EmsFw.removeUrl : EmsFw :=
  fwUrlSetFree { fw with
    whitelist := fw.whitelist.filter (·.id ≠ url.id)
    subdomain := fw.subdomain.filter (·.id ≠ url.id)
    hashUrl := hashRemove fw.hashUrl url.id } url false

-- One round of fw_remove_urls and of fw_append_urls; the queue of both is
-- fw->whitelist wherever they are called.
def fwRemoveUrl (name : Str) : EmsFw :=
  match findUrl fw.whitelist name with
  | none => fw
  | some url => fw.removeUrl url

def fwAppendUrl (isblack : Bool) (fw : EmsFw) (name : Str) : EmsFw :=
  match findUrl fw.whitelist name with
  | some _ => fw
  | none =>
    { fw with
      hashUrl := hashInsert fw.hashUrl name fw.nextUrl
      whitelist := fw.whitelist ++ [newUrl fw.nextUrl name isblack]
      nextUrl := fw.nextUrl + 1 }

def fwRemoveUrls (names : List Str) : EmsFw := names.foldl fwRemoveUrl fw

def fwAppendUrls (names : List Str) (isblack : Bool) : EmsFw := names.foldl (fwAppendUrl isblack) fw

def addrPart (name : Str) : Str := (name.takeWhile (· ≠ 47)).take 511
def maskPart (name : Str) : Str := (name.dropWhile (· ≠ 47)).tail

-- fw_dns_url_info_upt, and whether it returns EMS_OK. The hash keeps the key
-- the entry was put in with.
def fwDnsUrlInfoUpt : Bool × DnsUrl :=
  let mask := emsAtoi (maskPart url.url)
  if maskPart url.url = [] then (true, url)
  else if mask < 0 ∨ mask > 32 then (false, { url with mask := mask })
  else (true, { url with mask := mask, ipaddress := true, url := addrPart url.url })

-- One url of the whitelist in fw_dns_query_triger; the id counts up.
def trigerUrl (state : EmsFw × UInt16) (entry : Nat) : EmsFw × UInt16 :=
  let (fw, id) := state
  match fw.url? entry with
  | none => state
  | some url =>
    if url.ipaddress then state
    else if url.addr ≠ [] then (fw.editUrl entry fun url => { url with expired := true }, id)
    else
      let (valid, split) := fwDnsUrlInfoUpt url
      let fw := fw.editUrl entry fun _ => split
      if valid = false then (fw, id)
      else match inetAddr split.url with
        | none => if split.ipaddress then (fw, id) else (fwDnsCreateUser fw split.url id, id + 1)
        | some addr =>
          let fixed := { split with addr := [addr], ipaddress := true }
          (fwUrlSetFree (fw.editUrl entry fun _ => fixed) fixed true, id)

def EmsFw.expireSubdomains : EmsFw :=
  { fw with subdomain := fw.subdomain.map fun url => { url with expired := true } }

-- fw_dns_query_triger; `id` is what rand() % 35000 gives.
def fwDnsQueryTriger (id : UInt16) : EmsFw :=
  let fw := ((fw.whitelist.map (·.id)).foldl trigerUrl (fw, id)).1.expireSubdomains
  if fw.fwd.isEmpty then fw else fwDnsClientSetWrite fw true

def fwDnsSubdomainAppend : EmsFw :=
  let fw :=
    { fw with
      hashUrl := hashInsert fw.hashUrl url.url url.id
      nSubdomain := fw.nSubdomain + 1
      subdomain := fw.subdomain ++ [{ url with subdomain := true }]
      nextUrl := fw.nextUrl + 1 }
  if fw.nSubdomain > maxSubDomain then
    match fw.subdomain.head? with
    | none => fw
    | some oldest => { fw with nSubdomain := fw.nSubdomain - 1 }.removeUrl oldest
  else fw

def fwDnsUrlSelect (key : Str) : Option DnsUrl :=
  fw.whitelist.find? fun url => !url.ipaddress && !url.addr.isEmpty && strstr key url.url

def EmsFw.runLru : EmsFw :=
  { fw with
    whitelist := fw.whitelist.filter (·.id ≠ url.id)
    subdomain := fw.subdomain.filter (·.id ≠ url.id) ++ [url] }

-- fw_url_in_whitelist; `enable` is FLG_SUBDOMAIN_ENABLE, `id` a random id.
def fwUrlInWhitelist (enable : Bool) (fw : EmsFw) (key : Str) (id : UInt16) : EmsFw :=
  match dnsFindUrl fw key with
  | some url => if url.subdomain then fw.runLru url else fw
  | none =>
    match fwDnsUrlSelect fw key with
    | none => fw
    | some parent =>
      if enable then
        let fw := fwDnsSubdomainAppend fw (newUrl fw.nextUrl key parent.blacklist)
        fwDnsClientSetWrite (fwDnsCreateUser fw key id) true
      else fw

-- fw_url_whitelist_insert, which looks for no entry of that name.
def fwUrlWhitelistInsert (white : Str) (id : UInt16) : EmsFw :=
  let entry := fw.nextUrl
  let fw := fwDnsSubdomainAppend fw (newUrl entry white false)
  match inetAddr white with
  | none => fwDnsClientSetWrite (fwDnsCreateUser fw white id) true
  | some addr =>
    let fw := fw.editUrl entry fun url => { url with addr := [addr], ipaddress := true }
    match fw.url? entry with
    | none => fw
    | some url => fwUrlSetFree fw url true

-- fw_whitelist_clear and the two -F of fw_flush_whiltelist.
def fwWhitelistClear : EmsFw := { fw with hashUrl := [], whitelist := [], subdomain := [], nSubdomain := 0 }

-- The user's own list and the two lists of the server.
structure Bwlist where
  user : List Str
  white : List Str
  black : List Str
  deriving DecidableEq, Repr

def refill (lists : Bwlist) : EmsFw :=
  let fw := { fwWhitelistClear fw with rules := [] }
  let fw := fwAppendUrls fw lists.user false
  let fw := fwAppendUrls fw lists.white false
  fwAppendUrls fw lists.black true

def fwFlushWhiltelist (lists : Bwlist) (id : UInt16) : EmsFw := fwDnsQueryTriger (refill fw lists) id

local instance decidableUrlAddrs (p : Addr → Prop) [DecidablePred p] (l : List Addr) : Decidable (∀ addr ∈ l, p addr) := List.decidableBAll p l

-- dns_apply_new_addresss: nothing happens when there are as many addresses as
-- before and each of them was there.
def dnsApplyNewAddress (addr : List Addr) : EmsFw :=
  if addr.length = url.addr.length ∧ ∀ new ∈ addr, new ∈ url.addr then fw
  else
    let fw := fwUrlSetFree fw url false
    let fw := fw.editUrl url.id fun url => { url with addr := addr }
    fwUrlSetFree fw { url with addr := addr } true

def dnsUpdateUrlAddr (mem : List UInt8) (behind : Nat) (fw : EmsFw) (url : DnsUrl) : EmsFw :=
  match dnsGetAllAddress mem (ancount mem + nscount mem + arcount mem) behind with
  | none => fw.crash .wild
  | some addr =>
    let fw := if addr = [] then fw else dnsApplyNewAddress fw url addr
    fw.editUrl url.id fun url => { url with expired := false }

-- The two halves of fw_dns_parse_and_filter, for a name that is in the hash
-- and for one that is not.
def EmsFw.touch (id : Nat) : EmsFw :=
  match fw.url? id with
  | none => fw
  | some url => if url.subdomain then fw.runLru url else fw

def filterKnown (mem : List UInt8) (behind : Nat) (querySelf : Bool) (fw : EmsFw) (url : DnsUrl) : EmsFw :=
  if url.addr = [] ∨ url.expired ∨ querySelf then
    (dnsUpdateUrlAddr mem behind fw url).andThen fun fw => fw.touch url.id
  else fw.touch url.id

def filterNew (mem : List UInt8) (behind : Nat) (fw : EmsFw) (qname : Str) (blacklist : Bool) : EmsFw :=
  let next := fwDnsSubdomainAppend fw (newUrl fw.nextUrl qname blacklist)
  match next.url? fw.nextUrl with
  | none => next
  | some url => dnsUpdateUrlAddr mem behind next url

def fwDnsParseAndFilter (enable : Bool) (mem : List UInt8) (querySelf : Bool) (fw : EmsFw) : EmsFw :=
  match fwDnsGetQuestion mem with
  | none => fw.crash .wild
  | some (qname, behind) =>
    match dnsFindUrl fw qname with
    | some url => filterKnown mem behind querySelf fw url
    | none =>
      match fwDnsUrlSelect fw qname with
      | none => fw
      | some parent => if enable then filterNew mem behind fw qname parent.blacklist else fw

open Relation

-- The urls by themselves: the two queues, the hash and the firewall rules.
structure Catalog where
  whitelist : List DnsUrl
  subdomain : List DnsUrl
  nSubdomain : Nat
  hashUrl : List (Str × Nat)
  nextUrl : Nat
  rules : List Rule

def EmsFw.catalog : Catalog := ⟨fw.whitelist, fw.subdomain, fw.nSubdomain, fw.hashUrl, fw.nextUrl, fw.rules⟩

namespace Catalog

variable (book : Catalog)

def urls : List DnsUrl := book.whitelist ++ book.subdomain

def url? (id : Nat) : Option DnsUrl := book.urls.find? (·.id = id)

def find (name : Str) : Option DnsUrl := (hashFind book.hashUrl name).bind book.url?

def edit (id : Nat) (change : DnsUrl → DnsUrl) : Catalog :=
  { book with
    whitelist := book.whitelist.map fun url => if url.id = id then change url else url
    subdomain := book.subdomain.map fun url => if url.id = id then change url else url }

def remove (url : DnsUrl) : Catalog :=
  { book with
    whitelist := book.whitelist.filter (·.id ≠ url.id)
    subdomain := book.subdomain.filter (·.id ≠ url.id)
    hashUrl := hashRemove book.hashUrl url.id
    rules := book.rules.diff url.rules }

def append (name : Str) (isblack : Bool) : Catalog :=
  { book with
    hashUrl := hashInsert book.hashUrl name book.nextUrl
    whitelist := book.whitelist ++ [newUrl book.nextUrl name isblack]
    nextUrl := book.nextUrl + 1 }

def addSub (name : Str) (isblack : Bool) : Catalog :=
  { book with
    hashUrl := hashInsert book.hashUrl name book.nextUrl
    nSubdomain := book.nSubdomain + 1
    subdomain := book.subdomain ++ [{ newUrl book.nextUrl name isblack with subdomain := true }]
    nextUrl := book.nextUrl + 1 }

def evict : Catalog :=
  if book.nSubdomain > maxSubDomain then
    match book.subdomain.head? with
    | none => book
    | some oldest => { book with nSubdomain := book.nSubdomain - 1 }.remove oldest
  else book

def runLru (url : DnsUrl) : Catalog :=
  { book with
    whitelist := book.whitelist.filter (·.id ≠ url.id)
    subdomain := book.subdomain.filter (·.id ≠ url.id) ++ [url] }

def expire : Catalog := { book with subdomain := book.subdomain.map fun url => { url with expired := true } }

def clear : Catalog := { book with hashUrl := [], whitelist := [], subdomain := [], nSubdomain := 0, rules := [] }

end Catalog

structure Terms where
  lists : Prop
  twice : Prop
  renames : Str → Str → Prop

inductive UrlEffect (terms : Terms) (book : Catalog) : Catalog → Prop where
  | append (name : Str) (isblack : Bool) (listed : terms.lists) (absent : findUrl book.whitelist name = none)
      (free : terms.twice ∨ ∀ url ∈ book.subdomain, url.url ≠ name) : UrlEffect terms book (book.append name isblack)
  | subdomain (name : Str) (isblack : Bool) (unknown : terms.twice ∨ book.find name = none) :
      UrlEffect terms book (book.addSub name isblack).evict
  | remove (url : DnsUrl) (listed : terms.lists) (there : url ∈ book.whitelist) : UrlEffect terms book (book.remove url)
  | edit (url : DnsUrl) (found : book.url? url.id = some url) (change : DnsUrl → DnsUrl)
      (same : (change url).id = url.id ∧ (change url).subdomain = url.subdomain ∧ (change url).rules = url.rules)
      (named : (change url).url = url.url ∨ terms.renames url.url (change url).url) :
      UrlEffect terms book (book.edit url.id change)
  | readdress (url : DnsUrl) (found : book.url? url.id = some url) (change : DnsUrl → DnsUrl)
      (same : (change url).id = url.id ∧ (change url).subdomain = url.subdomain)
      (named : (change url).url = url.url ∨ terms.renames url.url (change url).url) :
      UrlEffect terms book
        { book.edit url.id change with rules := (change url).rules.reverse ++ book.rules.diff url.rules }
  | lru (url : DnsUrl) (found : book.url? url.id = some url) (sub : url.subdomain = true) :
      UrlEffect terms book (book.runLru url)
  | expire : UrlEffect terms book book.expire
  | clear (listed : terms.lists) : UrlEffect terms book book.clear

def UrlEffects (terms : Terms) : Catalog → Catalog → Prop := ReflTransGen (UrlEffect terms)

theorem url_effects_keep (terms : Terms) (keeps : Catalog → Prop)
    (preserved : ∀ book next, keeps book → UrlEffect terms book next → keeps next) (book next : Catalog)
    (effects : UrlEffects terms book next) (good : keeps book) : keeps next := by
  induction effects with
  | refl => exact good
  | tail _ last ih => exact preserved _ _ ih last

end Codec.Fw
