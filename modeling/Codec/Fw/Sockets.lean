import Codec.Fw.HandleSpec

set_option autoImplicit false

namespace Codec.Fw

open Codec.Ems

structure Serving (fw : EmsFw) : Prop where
  out : fw.out ≠ [] → ∃ sess ∈ fw.sessBind, sess.write = true
  fwd : fw.fwd ≠ [] → ∃ sess ∈ fw.sessDns, sess.write = true
  wait : fw.wait ≠ [] → ∃ sess ∈ fw.sessDns, sess.read = true
  sound : fw.fault ≠ some .nullSess

def Idle (fw : EmsFw) : Prop :=
  fw.run = false → fw.sessBind = none ∧ fw.sessDns = none ∧ fw.fwd = [] ∧ fw.wait = [] ∧ fw.out = []

def SocketsReady (fw : EmsFw) : Event → Prop
  | .serverErr _ => fw.sessBind.isSome → fw.out = []
  | .clientErr connect => fw.sessDns.isSome → fw.fwd = [] ∧ (connect = true ∨ fw.wait = [])
  | .request _ _ datagram => fw.sessBind.isSome → datagram ≠ [] → fw.sessDns.isSome
  | .reply _ _ datagram => ∀ sess ∈ fw.sessDns, datagram ≠ [] →
      ∀ user ∈ dnsFindUser fw (dnsId (sess.receive datagram)), user.querySelf = false → fw.sessBind.isSome
  | .schedule id => fw.sessBind.isSome → fw.fwd ≠ [] ∨ fw.asked id ≠ [] → fw.sessDns.isSome
  | .flush lists id => fw.run = true → fw.fwd ≠ [] ∨ (refill fw lists).asked id ≠ [] → fw.sessDns.isSome
  | .checkUrlWhitelist addr _ => fw.run = true ∧ addr ≠ [] ∧ inetAddr addr = none → fw.sessDns.isSome
  | .checkSubdomain enable url _ =>
    fw.run = true ∧ url ≠ [] ∧ enable = true ∧ dnsFindUrl fw url = none ∧ (fwDnsUrlSelect fw url).isSome →
      fw.sessDns.isSome
  | _ => True

instance (fw : EmsFw) (event : Event) : Decidable (SocketsReady fw event) := by
  rcases event <;> unfold SocketsReady <;> infer_instance

structure Sockets where
  run : Bool
  sessBind : Option Session
  sessDns : Option Session
  fwd : List Nat
  wait : List Nat
  out : List Nat

def EmsFw.sockets (fw : EmsFw) : Sockets := ⟨fw.run, fw.sessBind, fw.sessDns, fw.fwd, fw.wait, fw.out⟩

structure Calm (fw next : EmsFw) : Prop where
  sockets : next.sockets = fw.sockets
  fault : next.fault = fw.fault ∨ next.fault = some .wild

theorem calm_trans (first second third : EmsFw) (left : Calm first second) (right : Calm second third) : Calm first third where
  sockets := right.sockets.trans left.sockets
  fault := by
    rcases right.fault with same | wild
    · rw [same]
      exact left.fault
    · exact .inr wild

theorem calm_serving (fw next : EmsFw) (calm : Calm fw next) (serving : Serving fw) : Serving next := by
  have bound : next.sessBind = fw.sessBind := congrArg Sockets.sessBind calm.sockets
  have dns : next.sessDns = fw.sessDns := congrArg Sockets.sessDns calm.sockets
  constructor
  · rw [bound, show next.out = fw.out from congrArg Sockets.out calm.sockets]
    exact serving.out
  · rw [dns, show next.fwd = fw.fwd from congrArg Sockets.fwd calm.sockets]
    exact serving.fwd
  · rw [dns, show next.wait = fw.wait from congrArg Sockets.wait calm.sockets]
    exact serving.wait
  · rcases calm.fault with same | wild
    · rw [same]
      exact serving.sound
    · rw [wild]
      decide

theorem calm_idle (fw next : EmsFw) (calm : Calm fw next) (idle : Idle fw) : Idle next := by
  intro stopped
  have same := calm.sockets
  simp only [EmsFw.sockets, Sockets.mk.injEq] at same
  obtain ⟨run, bound, dns, fwd, wait, out⟩ := same
  rw [bound, dns, fwd, wait, out]
  exact idle (run ▸ stopped)

section Urls

variable (fw : EmsFw)

theorem calm_refl : Calm fw fw := ⟨rfl, .inl rfl⟩

theorem append_urls_calm (names : List Str) (isblack : Bool) : Calm fw (fwAppendUrls fw names isblack) := by
  induction names generalizing fw with
  | nil => exact calm_refl fw
  | cons name rest ih =>
    apply calm_trans fw _ _ _ (ih _)
    cases found : findUrl fw.whitelist name with
    | none =>
      simp only [fwAppendUrl, found]
      exact ⟨rfl, .inl rfl⟩
    | some url =>
      simp only [fwAppendUrl, found]
      exact calm_refl fw

theorem remove_urls_calm (names : List Str) : Calm fw (fwRemoveUrls fw names) := by
  induction names generalizing fw with
  | nil => exact calm_refl fw
  | cons name rest ih =>
    apply calm_trans fw _ _ _ (ih _)
    cases found : findUrl fw.whitelist name with
    | none =>
      simp only [fwRemoveUrl, found]
      exact calm_refl fw
    | some url =>
      simp only [fwRemoveUrl, found]
      exact ⟨rfl, .inl rfl⟩

theorem subdomain_append_calm (url : DnsUrl) : Calm fw (fwDnsSubdomainAppend fw url) := by
  rw [fwDnsSubdomainAppend]
  split
  · split
    · exact ⟨rfl, .inl rfl⟩
    · exact ⟨rfl, .inl rfl⟩
  · exact ⟨rfl, .inl rfl⟩

theorem update_url_addr_calm (mem : List UInt8) (behind : Nat) (url : DnsUrl) :
    Calm fw (dnsUpdateUrlAddr mem behind fw url) := by
  rw [dnsUpdateUrlAddr]
  cases dnsGetAllAddress mem _ _ with
  | none => exact ⟨rfl, .inr rfl⟩
  | some addr =>
    by_cases empty : addr = []
    · simp only [if_pos empty]
      exact ⟨rfl, .inl rfl⟩
    · simp only [if_neg empty, dnsApplyNewAddress]
      split
      · exact ⟨rfl, .inl rfl⟩
      · exact ⟨rfl, .inl rfl⟩

theorem touch_calm (id : Nat) : Calm fw (fw.touch id) := by
  rw [EmsFw.touch]
  split
  · exact calm_refl fw
  · split
    · exact ⟨rfl, .inl rfl⟩
    · exact calm_refl fw

theorem parse_and_filter_calm (enable : Bool) (mem : List UInt8) (querySelf : Bool) :
    Calm fw (fwDnsParseAndFilter enable mem querySelf fw) := by
  rw [fwDnsParseAndFilter]
  split
  · exact ⟨rfl, .inr rfl⟩
  · rename_i qname behind _
    split
    · rename_i url _
      rw [filterKnown]
      split
      · have updated := update_url_addr_calm fw mem behind url
        rw [EmsFw.andThen]
        split
        · exact calm_trans _ _ _ updated (touch_calm _ _)
        · exact updated
      · exact touch_calm fw _
    · split
      · exact calm_refl fw
      · rename_i parent _
        split
        · have appended := subdomain_append_calm fw (newUrl fw.nextUrl qname parent.blacklist)
          rw [filterNew]
          split
          · exact appended
          · exact calm_trans _ _ _ appended (update_url_addr_calm _ mem _ _)
        · exact calm_refl fw

end Urls

theorem refill_calm (fw : EmsFw) (lists : Bwlist) : Calm fw (refill fw lists) := by
  let cleared : EmsFw := { fwWhitelistClear fw with rules := [] }
  have first : Calm fw cleared := ⟨rfl, .inl rfl⟩
  have second := calm_trans _ _ _ first (append_urls_calm _ lists.user false)
  have third := calm_trans _ _ _ second (append_urls_calm _ lists.white false)
  exact calm_trans _ _ _ third (append_urls_calm _ _ true)

theorem triger_calm (entries : List Nat) (fw : EmsFw) (id : UInt16) :
    Calm { fw with fwd := [] } { (entries.foldl trigerUrl (fw, id)).1 with fwd := [] } ∧
      (entries.countP fw.asksAt = 0 → (entries.foldl trigerUrl (fw, id)).1.fwd = fw.fwd) := by
  induction entries generalizing fw id with
  | nil => exact ⟨calm_refl _, fun _ => rfl⟩
  | cons entry rest ih =>
    have round := triger_url_round fw id entry
    have kept := round_asks fw id _ _ round
    rw [List.foldl_cons]
    generalize trigerUrl _ _ = next at round kept
    have later := ih next.1 next.2
    have count : rest.countP next.1.asksAt = rest.countP _ := List.countP_congr fun other _ => by rw [kept _]
    have here : Calm { fw with fwd := [] } { next.1 with fwd := [] } := by
      cases round with
      | skip | mark | expire | rename | fix | ask => exact ⟨rfl, .inl rfl⟩
    refine ⟨calm_trans _ _ _ here later.1, ?_⟩
    intro none
    have quiet : fw.asksAt entry = false := by
      by_contra asks
      rw [List.countP_cons_of_pos (by simpa using asks)] at none
      omega
    rw [List.countP_cons_of_neg (by rw [quiet]; decide), ← count] at none
    refine (later.2 none).trans ?_
    cases round with
    | skip | mark | expire | rename | fix => rfl
    | ask url found asks =>
      rw [EmsFw.asksAt, found] at quiet
      exact absurd asks (by simpa using quiet)

theorem client_write_serving (fw : EmsFw) (open' : fw.sessDns.isSome)
    (out : fw.out ≠ [] → ∃ sess ∈ fw.sessBind, sess.write = true) (sound : fw.fault ≠ some .nullSess) :
    Serving (fwDnsClientSetWrite fw true) := by
  obtain ⟨sess, bound⟩ := Option.isSome_iff_exists.mp open'
  have next : fwDnsClientSetWrite fw true =
      { fw with sessDns := some { sess with read := !fw.wait.isEmpty, write := true } } := by
    rw [fwDnsClientSetWrite, bound]
  rw [next]
  constructor
  · exact out
  · exact fun _ => ⟨_, rfl, rfl⟩
  · intro waits
    refine ⟨_, rfl, ?_⟩
    cases queue : fw.wait with
    | nil => exact absurd queue waits
    | cons id rest => rfl
  · exact sound

end Codec.Fw
