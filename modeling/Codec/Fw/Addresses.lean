import Codec.Fw.Names
import Codec.Fw.UrlSpec

set_option autoImplicit false

namespace Codec.Fw

open Codec.Ems

variable (mem : List UInt8) (total start : Nat)

def skipFrom (mem : List UInt8) : Nat → Nat → Option Nat
  | 0, _ => none
  | fuel + 1, pos =>
    match placeAt mem pos with
    | .outside => none
    | .root => some (pos + 1)
    | .pointer _ => some (pos + 2)
    | .label len => skipFrom mem fuel (pos + 1 + len)

def skipName (pos : Nat) : Option Nat := skipFrom mem (mem.length + 1) pos

structure Record where
  ty : Nat
  cls : Nat
  len : Nat
  data : Nat
  deriving DecidableEq, Repr

def recordAt (start : Nat) : Option Record := do
  let item ← skipName mem start
  let ty ← dnsGetShort mem item
  let cls ← dnsGetShort mem (item + 2)
  let len ← dnsGetShort mem (item + 8)
  return ⟨ty, cls, len, item + itemSize⟩

def Record.Asks (rec : Record) : Prop := rec.ty = 1 ∧ rec.cls = 1

instance (rec : Record) : Decidable rec.Asks := inferInstanceAs (Decidable (rec.ty = 1 ∧ rec.cls = 1))

-- The addresses of the A records of class IN among the next `total`: only
-- four bytes are an address, and only if they were received.
def answers (mem : List UInt8) : Nat → Nat → List Addr
  | 0, _ => []
  | total + 1, start =>
    match recordAt mem start with
    | none => []
    | some rec =>
      (if rec.Asks ∧ rec.len = 4 then (dnsGetAddr mem rec.data).toList else []) ++ answers mem total (rec.data + rec.len)

def AddressesRight : Prop :=
  ∃ addrs, dnsGetAllAddress mem total start = some addrs ∧ addrs = answers mem total start ∧ addrs.length ≤ total

def Walked (mem : List UInt8) : Nat → Nat → Prop
  | 0, _ => True
  | total + 1, start =>
    NameLayout mem start ∧ ∃ rec, recordAt mem start = some rec ∧
      (rec.Asks → rec.len = 4 ∧ rec.data + 4 ≤ mem.length) ∧ Walked mem total (rec.data + rec.len)

theorem skip_reads (fuel pos : Nat) (text : Str) (behind : Nat) (enough : mem.length < pos + fuel)
    (reads : Reads mem pos text behind) : skipFrom mem fuel pos = some behind := by
  induction fuel generalizing pos text with
  | zero =>
    have absent : mem[pos]? = none := List.getElem?_eq_none (by omega)
    obtain ⟨turns, decoded⟩ := reads
    cases turns with
    | zero => cases decoded
    | succ turns => simp [name_from_place, placeAt, absent] at decoded
  | succ fuel ih =>
    rw [skipFrom]
    cases place : placeAt mem pos with
    | outside =>
      obtain ⟨turns, decoded⟩ := reads
      cases turns with
      | zero => cases decoded
      | succ turns => simp [name_from_place, place] at decoded
    | root => rw [((reads_root mem pos text _ place).mp reads).2]
    | pointer target => rw [((reads_pointer mem pos _ text _ place).mp reads).1]
    | label len =>
      obtain ⟨inner, inside, _⟩ := (reads_label mem pos len text _ place).mp reads
      exact ih _ _ (by omega) inside

theorem get_name_skip (start : Nat) (name : Str) (behind : Nat) (found : dnsGetName mem start = some (name, behind)) :
    NameLayout mem start ∧ skipName mem start = some behind := by
  obtain ⟨fuel, text, decoded, short⟩ := dns_get_name_found mem _ name _ found
  refine ⟨decodes_layout mem _ ⟨fuel, text, behind, decoded, short⟩, ?_⟩
  exact skip_reads mem _ _ text _ (by omega) ⟨fuel, decoded⟩

theorem short_some (start : Nat) : (∃ value, dnsGetShort mem start = some value) ↔ start + 1 < mem.length := by
  rw [dnsGetShort]
  constructor
  · rintro ⟨value, read⟩
    simp only [Option.bind_eq_bind, Option.bind_eq_some_iff] at read
    obtain ⟨high, _, low, next, _⟩ := read
    exact (List.getElem?_eq_some_iff.mp next).1
  · intro inside
    have high : mem[start]? = some _ := List.getElem?_eq_getElem (by omega)
    have low : mem[start + 1]? = some _ := List.getElem?_eq_getElem inside
    exact ⟨_, by simp only [high, low, Option.bind_eq_bind, Option.bind_some]; rfl⟩

theorem addr_some (start : Nat) : (∃ addr, dnsGetAddr mem start = some addr) ↔ start + 4 ≤ mem.length := by
  rw [dnsGetAddr]
  constructor
  · rintro ⟨addr, read⟩
    simp only [Option.bind_eq_bind, Option.bind_eq_some_iff] at read
    obtain ⟨high, _, low, next, _⟩ := read
    have inside := (short_some mem _).mp ⟨low, next⟩
    omega
  · intro inside
    obtain ⟨high, first⟩ := (short_some mem start).mpr (by omega)
    obtain ⟨low, second⟩ := (short_some mem (start + 2)).mpr (by omega)
    exact ⟨_, by simp only [first, second, Option.bind_eq_bind, Option.bind_some]; rfl⟩

theorem all_address_turn (addrs : List Addr) :
    dnsGetAllAddress mem (total + 1) start = some addrs ↔ NameLayout mem start ∧ ∃ rec, recordAt mem start = some rec ∧
      if rec.Asks then ∃ addr rest, dnsGetAddr mem rec.data = some addr ∧
        dnsGetAllAddress mem total (rec.data + rec.len) = some rest ∧ addrs = addr :: rest
      else dnsGetAllAddress mem total (rec.data + rec.len) = some addrs := by
  rw [dnsGetAllAddress]
  cases name : dnsGetName mem _ with
  | none =>
    have unreadable : ¬NameLayout mem start := by
      intro layout
      obtain ⟨fuel, text, behind, decoded, short⟩ := layout_decodes mem _ layout
      rw [dns_get_name_some mem fuel _ text _ decoded short] at name
      cases name
    simp [unreadable]
  | some found =>
    obtain ⟨layout, skip⟩ := get_name_skip mem _ _ _ name
    simp only [recordAt, skip, Option.bind_eq_bind, Option.bind_some, layout, true_and]
    cases dnsGetShort mem _ with
    | none => simp
    | some ty =>
      cases dnsGetShort mem _ with
      | none => simp
      | some cls =>
        cases dnsGetShort mem _ with
        | none => simp
        | some len =>
          simp only [Option.bind_some, Option.some.injEq, exists_eq_left', Option.pure_def]
          by_cases asks : ty = 1 ∧ cls = 1
          · have own : Record.Asks ⟨ty, cls, len, found.2 + itemSize⟩ := asks
            rw [if_pos asks, if_pos own]
            simp only [Option.bind_eq_some_iff, Option.some.injEq]
            constructor
            · rintro ⟨addr, read, rest, later, same⟩
              exact ⟨addr, rest, read, later, same.symm⟩
            · rintro ⟨addr, rest, read, later, same⟩
              exact ⟨addr, read, rest, later, same.symm⟩
          · have other : ¬Record.Asks ⟨ty, cls, len, found.2 + itemSize⟩ := asks
            rw [if_neg asks, if_neg other]

theorem answers_bound (addrs : List Addr)
    (found : dnsGetAllAddress mem total start = some addrs) :
    (answers mem total start).length ≤ addrs.length ∧ addrs.length ≤ total ∧
      ((answers mem total start).length = addrs.length → Walked mem total start) := by
  induction total generalizing start addrs with
  | zero =>
    cases found
    exact ⟨Nat.le_refl 0, Nat.le_refl 0, fun _ => trivial⟩
  | succ total ih =>
    obtain ⟨layout, rec, read, turn⟩ := (all_address_turn mem _ _ _).mp found
    by_cases asks : rec.Asks
    · rw [if_pos asks] at turn
      obtain ⟨addr, rest, own, later, same⟩ := turn
      obtain ⟨fewer, bound, whole⟩ := ih _ rest later
      have inside := (addr_some mem _).mp ⟨addr, own⟩
      by_cases four : rec.len = 4
      · have split : answers mem (total + 1) start = addr :: answers mem total (rec.data + rec.len) := by
          simp [answers, read, asks, four, own]
        rw [split, same]
        refine ⟨Nat.succ_le_succ fewer, Nat.succ_le_succ bound, fun equal => ?_⟩
        exact ⟨layout, rec, read, fun _ => ⟨four, inside⟩, whole (Nat.succ.inj equal)⟩
      · have split : answers mem (total + 1) start = answers mem total (rec.data + rec.len) := by
          simp [answers, read, four]
        rw [split, same]
        simp only [List.length_cons]
        exact ⟨by omega, by omega, fun equal => absurd equal (by omega)⟩
    · rw [if_neg asks] at turn
      obtain ⟨fewer, bound, whole⟩ := ih _ _ turn
      have split : answers mem (total + 1) start = answers mem total (rec.data + rec.len) := by simp [answers, read, asks]
      rw [split]
      exact ⟨fewer, by omega, fun equal => ⟨layout, rec, read, fun own => absurd own asks, whole equal⟩⟩

theorem walked_answers (walked : Walked mem total start) :
    dnsGetAllAddress mem total start = some (answers mem total start) := by
  induction total generalizing start with
  | zero => rfl
  | succ total ih =>
    obtain ⟨layout, rec, read, four, rest⟩ := walked
    have later := ih _ rest
    refine (all_address_turn mem _ _ _).mpr ⟨layout, rec, read, ?_⟩
    by_cases asks : rec.Asks
    · obtain ⟨len, inside⟩ := four asks
      obtain ⟨addr, own⟩ := (addr_some mem _).mpr inside
      rw [if_pos asks]
      exact ⟨addr, _, own, later, by simp [answers, read, asks, len, own]⟩
    · rw [if_neg asks, later]
      simp [answers, read, asks]

theorem dns_get_all_address_iff (mem : List UInt8) (total start : Nat) :
    AddressesRight mem total start ↔ Walked mem total start := by
  constructor
  · rintro ⟨addrs, found, same, _⟩
    exact (answers_bound mem _ _ _ found).2.2 (by rw [same])
  · intro walked
    have found := walked_answers mem _ _ walked
    exact ⟨_, found, rfl, (answers_bound mem _ _ _ found).2.1⟩

def shortReply : List UInt8 :=
  [0, 7, 0x81, 0x80, 0, 1, 0, 2, 0, 0, 0, 0, 1, 97, 0, 0, 1, 0, 1, 0xc0, 12, 0, 1, 0, 1, 0, 0, 0, 60, 0, 4, 10, 0, 0, 1]

theorem short_reply_overrun : ¬∀ (mem : List UInt8) (start : Nat),
    AddressesRight mem (ancount mem + nscount mem + arcount mem) start := by
  intro claim
  obtain ⟨addrs, found, _, _⟩ := claim _ 19
  have counted : ancount shortReply + nscount shortReply + arcount shortReply = 2 := by decide
  have first : recordAt shortReply 19 = some ⟨1, 1, 4, 31⟩ := by decide
  rw [counted] at found
  obtain ⟨_, rec, read, turn⟩ := (all_address_turn _ 1 19 _).mp found
  rw [first] at read
  cases read
  rw [if_pos ⟨rfl, rfl⟩] at turn
  obtain ⟨_, rest, _, later, _⟩ := turn
  obtain ⟨layout, _⟩ := (all_address_turn _ 0 35 rest).mp later
  exact layout.inside 0 35 rfl (by decide)

section Refresh

local instance decidableNewAddrs (p : Addr → Prop) [DecidablePred p] (l : List Addr) : Decidable (∀ addr ∈ l, p addr) := List.decidableBAll p l

-- fw_url_set_free on an entry: iptables says for each place of the array
-- whether it accepts; an address it refuses is zeroed.
def DnsUrl.accepted (url : DnsUrl) (accepts : Nat → Bool) : DnsUrl :=
  { url with addr := url.addr.mapIdx fun i addr => if accepts i then addr else 0 }

-- dns_apply_new_addresss with all it depends on: the answers of iptables to
-- the two calls of fw_url_set_free, and whether there is memory for the array.
def dnsApplyNewAddresss (fw : EmsFw) (url : DnsUrl) (addr : List Addr) (deletes : Nat → Bool) (memory : Bool)
    (inserts : Nat → Bool) : EmsFw :=
  if addr.length = url.addr.length ∧ ∀ new ∈ addr, new ∈ url.addr then fw
  else
    let fw := fwUrlSetFree fw (url.accepted deletes) false
    if memory then
      let fresh := { url with addr := addr }.accepted inserts
      fwUrlSetFree (fw.editUrl url.id fun url => { url with addr := fresh.addr }) fresh true
    else fw.editUrl url.id fun url => { url with addr := [] }

def Refreshed (fw : EmsFw) (id : Nat) (addr : List Addr) : Prop :=
  ∀ url, fw.url? id = some url → ∀ one, one ∈ url.addr ↔ one ∈ addr

def Inserted (addr : List Addr) (inserts : Nat → Bool) : Prop :=
  ∀ (i : Nat) (one : Addr), addr[i]? = some one → one ≠ 0 → inserts i = false →
    0 ∈ addr ∧ ∃ j, addr[j]? = some one ∧ inserts j = true

theorem accepted_set (addr : List Addr) (inserts : Nat → Bool) :
    (∀ one, one ∈ addr.mapIdx (fun i addr => if inserts i then addr else 0) ↔ one ∈ addr) ↔ Inserted addr inserts := by
  have member (one : Addr) : one ∈ addr.mapIdx (fun i addr => if inserts i then addr else 0) ↔
      ∃ (i : Nat) (old : Addr), addr[i]? = some old ∧ (if inserts i then old else 0) = one := by
    rw [List.mem_iff_getElem?]
    simp only [List.getElem?_mapIdx, Option.map_eq_some_iff]
  constructor
  · intro same i one there nonzero refused
    have zero : (0 : Addr) ∈ addr := (same 0).mp ((member 0).mpr ⟨i, one, there, by rw [refused]; rfl⟩)
    obtain ⟨j, old, place, kept⟩ := (member one).mp ((same one).mpr (List.mem_of_getElem? there))
    cases accepts : inserts j with
    | false =>
      rw [accepts] at kept
      exact absurd kept.symm nonzero
    | true =>
      rw [accepts] at kept
      exact ⟨zero, j, kept ▸ place, accepts⟩
  · intro inserted one
    rw [member]
    constructor
    · rintro ⟨i, old, there, same⟩
      cases accepts : inserts i with
      | false =>
        rw [accepts] at same
        have zero : one = 0 := same.symm
        by_cases nonzero : old = 0
        · rw [zero, ← nonzero]
          exact List.mem_of_getElem? there
        · rw [zero]
          exact (inserted i old there nonzero accepts).1
      | true =>
        rw [accepts] at same
        have kept : old = one := same
        exact kept ▸ List.mem_of_getElem? there
    · intro there
      obtain ⟨i, place⟩ := List.mem_iff_getElem?.mp there
      cases accepts : inserts i with
      | true => exact ⟨i, one, place, by rw [accepts]; rfl⟩
      | false =>
        by_cases zero : one = 0
        · exact ⟨i, one, place, by rw [accepts, zero]; rfl⟩
        · obtain ⟨_, j, again, fine⟩ := inserted i one place zero accepts
          exact ⟨j, one, again, by rw [fine]; rfl⟩

def sampleEntry (addr : List Addr) : EmsFw := { EmsFw.init with whitelist := [⟨0, [97], addr, 32, false, false, false, false⟩] }

theorem dns_apply_new_addresss_iff (fw : EmsFw) (url : DnsUrl) (addr : List Addr) (deletes : Nat → Bool) (memory : Bool)
    (inserts : Nat → Bool) (known : fw.url? url.id = some url) (some_ : addr ≠ []) :
    Refreshed (dnsApplyNewAddresss fw url addr deletes memory inserts) url.id addr ↔
      if addr.length = url.addr.length ∧ ∀ new ∈ addr, new ∈ url.addr then ∀ old ∈ url.addr, old ∈ addr
      else memory = true ∧ Inserted addr inserts := by
  have edited (mid : EmsFw) (fresh : List Addr) (same : mid.url? url.id = some url) :
      (mid.editUrl url.id fun url => { url with addr := fresh }).url? url.id = some { url with addr := fresh } := by
    have found := edit_url_find mid url.id url.id (fun url => { url with addr := fresh }) fun _ same => same
    rw [found, same, Option.map_some, if_pos rfl]
  have freed : (fwUrlSetFree fw (url.accepted deletes) false).url? _ = some url := known
  by_cases skip : addr.length = url.addr.length ∧ ∀ new ∈ addr, new ∈ url.addr
  · simp only [dnsApplyNewAddresss, if_pos skip, Refreshed, known, Option.some.injEq, forall_eq']
    exact ⟨fun same old there => (same old).mp there, fun more one => ⟨more one, skip.2 one⟩⟩
  · cases memory with
    | false =>
      have after := edited _ [] freed
      simp only [dnsApplyNewAddresss, if_neg skip, Refreshed, after, Option.some.injEq, forall_eq', Bool.false_eq_true, if_false,
        false_and, iff_false, List.not_mem_nil, false_iff]
      intro none
      obtain ⟨one, there⟩ := List.exists_mem_of_ne_nil addr some_
      exact none one there
    | true =>
      let fresh := { url with addr := addr }.accepted inserts
      have after := edited _ fresh.addr freed
      have listed (mid : EmsFw) : (fwUrlSetFree mid fresh true).url? _ = mid.url? url.id := rfl
      simp only [dnsApplyNewAddresss, if_neg skip, if_true, Refreshed, true_and]
      rw [listed, after]
      simp only [Option.some.injEq, forall_eq']
      exact accepted_set addr _

theorem dns_apply_new_addresss_sample :
    Refreshed (dnsApplyNewAddresss (sampleEntry [1, 2]) ⟨0, [97], [1, 2], 32, false, false, false, false⟩ [2, 3, 3] (fun _ => true) true
      (fun _ => true)) 0 [2, 3, 3] :=
  (dns_apply_new_addresss_iff _ _ _ _ true _ rfl (by decide)).mpr
    ⟨rfl, fun _ _ _ _ refused => nomatch refused⟩

theorem repeated_address_kept : ¬∀ (fw : EmsFw) (url : DnsUrl) (addr : List Addr) (deletes inserts : Nat → Bool),
    fw.url? url.id = some url → addr ≠ [] → Refreshed (dnsApplyNewAddresss fw url addr deletes true inserts) url.id addr := by
  intro claim
  let url : DnsUrl := ⟨0, [97], [1, 2], 32, false, false, false, false⟩
  have refreshed := claim (sampleEntry _) url [1, 1] (fun _ => true) (fun _ => true) rfl (by decide)
  have skip : ([1, 1] : List Addr).length = url.addr.length ∧ ∀ new ∈ ([1, 1] : List Addr), new ∈ url.addr :=
    ⟨rfl, by simp [url]⟩
  rw [dnsApplyNewAddresss, if_pos skip] at refreshed
  have stored : (2 : Addr) ∈ url.addr := by decide
  have gone : (2 : Addr) ∉ ([1, 1] : List Addr) := by decide
  exact gone ((refreshed url rfl 2).mp stored)

end Refresh

end Codec.Fw
