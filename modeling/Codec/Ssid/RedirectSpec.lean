import Mathlib.Data.List.Dedup
import Codec.Ssid.Redirect

set_option autoImplicit false

namespace Codec.Ssid

open Codec.Ems
open Codec.Fw (emsAtoi inetAddr)

def greyAddresses (http : EmsHttp) : List Codec.Fw.Addr := http.grey.filterMap inetAddr

def addressRule (http : EmsHttp) (addr : Codec.Fw.Addr) : DnatRule := ⟨some addr, http.srcPort, http.dstPort⟩

def portRule (http : EmsHttp) : DnatRule := ⟨none, http.srcPort, http.dstPort⟩

def addressRules (http : EmsHttp) : List DnatRule :=
  ((inetAddr http.nas).toList ++ (greyAddresses http).dedup).map (addressRule http)

def calledRules (http : EmsHttp) : List DnatRule := ((inetAddr http.nas).toList ++ greyAddresses http).map (addressRule http)

structure RulesFollow (ssid : NicWireless) : Prop where
  post : ∃ rules, ssid.fw.postDefault = some rules ∧ rules.Perm (ssid.http.list.map portRule)
  pre : ∃ rules, ssid.fw.preDefault = some rules ∧ rules.Perm (ssid.http.list.flatMap addressRules)

def openedPorts (ports : List Str) (binds : List (Option (Fin 21))) : List Str :=
  ((ports.zip binds).filter fun pair => pair.2.isSome).map Prod.fst

def opened (rule : HttpRules) (binds : List (Option (Fin 21))) : List Str := openedPorts rule.ports binds

def startsFrom (mgmt : HttpMgmt) : HttpMsg → Option HttpRules
  | .start => if mgmt.run then none else some (mgmt.rule.getD emsHttpDefaultRules)
  | .serverRulesUpdate root => root.filter fun rule => mgmt.run && rule.text ≠ mgmt.ruleText
  | _ => none

def ownAddresses (srcPort : Int) (entries : List (Option Str)) : List Str :=
  entries.filterMap fun obj => obj.bind (ownAddress srcPort)

def PortSound (rule : HttpRules) (port : Str) : Prop :=
  0 < emsAtoi port ∧ ((ownAddresses (emsAtoi port) rule.grey).filterMap inetAddr).Nodup

def Guarded (ssid : NicWireless) (msg : HttpMsg) (rest : List Msg) (binds : List (Option (Fin 21))) : Prop :=
  (∀ rule ∈ startsFrom ssid.http msg, opened rule binds ≠ [] → .http .evtFwReload ∈ rest) ∧
    (msg = .evtFwReload → ssid.fw.preDefault.getD [] = [] ∧ ssid.fw.postDefault.getD [] = [])

def MessageSound (ssid : NicWireless) (binds : List (Option (Fin 21))) : List Msg → Prop
  | .http msg :: rest =>
    (∀ rule ∈ startsFrom ssid.http msg, ∀ port ∈ opened rule binds, PortSound rule port) ∧
      (ssid.fw.run = true → .fw .evtFwReload ∉ rest → Guarded ssid msg rest binds)
  | _ => True

def StepSound (ssid : NicWireless) : Event → Prop
  | .deliver binds => MessageSound ssid binds ssid.msgEntry
  | _ => True

instance (rule : HttpRules) (port : Str) : Decidable (PortSound rule port) := inferInstanceAs (Decidable (_ ∧ _))

instance (ssid : NicWireless) (msg : HttpMsg) (rest : List Msg) (binds : List (Option (Fin 21))) :
    Decidable (Guarded ssid msg rest binds) := inferInstanceAs (Decidable (_ ∧ _))

instance (ssid : NicWireless) (binds : List (Option (Fin 21))) : ∀ queue, Decidable (MessageSound ssid binds queue)
  | [] => isTrue trivial
  | .fw _ :: _ => isTrue trivial
  | .http _ :: _ => inferInstanceAs (Decidable (_ ∧ _))

instance (ssid : NicWireless) : ∀ event, Decidable (StepSound ssid event)
  | .deliver binds => inferInstanceAs (Decidable (MessageSound ssid binds ssid.msgEntry))
  | .http _ => isTrue trivial
  | .httpRules _ => isTrue trivial
  | .fw _ => isTrue trivial
  | .fwReload _ => isTrue trivial
  | .ssidStop => isTrue trivial

structure Fine (http : EmsHttp) : Prop where
  srcPort : 0 < http.srcPort
  dstPort : 0 < http.dstPort
  nas : http.nasGetInfo = false → http.nas = []
  grey : http.greyList = false → http.grey = []
  distinct : (greyAddresses http).Nodup

structure Bare (fw : EmsFw) : Prop where
  pre : fw.preDefault = some []
  post : fw.postDefault = some []

inductive ChainsSound (queue : List Msg) (list : List EmsHttp) (fw : EmsFw) : Prop where
  | stopped (stop : fw.run = false)
  | flushed (later : .fw .evtFwReload ∈ queue)
  | waiting (bare : Bare fw) (later : .http .evtFwReload ∈ queue)
  | filled (pre post : List DnatRule) (preRules : fw.preDefault = some pre) (postRules : fw.postDefault = some post)
      (preSame : pre.Perm (list.flatMap calledRules)) (postSame : post.Perm (list.map portRule))

theorem address_rules_distinct (http : EmsHttp) (fine : Fine http) : addressRules http = calledRules http := by
  rw [addressRules, calledRules, fine.distinct.dedup]

section Edits

def ipt (append : Bool) (chain : Option (List DnatRule)) (rules : List DnatRule) : Option (List DnatRule) :=
  rules.foldl (fun chain rule => fwIptExec append rule chain) chain

theorem ipt_append (append : Bool) (chain : Option (List DnatRule)) (first second : List DnatRule) :
    ipt append chain (first ++ second) = ipt append (ipt append chain first) second :=
  List.foldl_append

theorem ipt_insert (chain rules : List DnatRule) : ipt true (some chain) rules = some (rules.reverse ++ chain) := by
  induction rules generalizing chain with
  | nil => rfl
  | cons rule rest ih =>
    have tail := ih (rule :: chain)
    rw [ipt, List.foldl_cons, ← ipt]
    rw [fwIptExec, if_pos rfl, Option.map_some, tail, List.reverse_cons, List.append_assoc, List.singleton_append]

theorem ipt_delete (chain rules rest : List DnatRule) (same : chain.Perm (rules ++ rest)) :
    ∃ left, ipt false (some chain) rules = some left ∧ left.Perm rest := by
  induction rules generalizing chain with
  | nil => exact ⟨chain, rfl, same⟩
  | cons rule more ih =>
    have shorter : (chain.erase rule).Perm (more ++ rest) := by
      have erased := same.erase rule
      rwa [List.cons_append, List.erase_cons_head] at erased
    obtain ⟨left, ends, perm⟩ := ih _ shorter
    exact ⟨left, ends, perm⟩

def edited (append : Bool) (fw : EmsFw) (pre post : List DnatRule) : EmsFw :=
  { fw with preDefault := ipt append fw.preDefault pre, postDefault := ipt append fw.postDefault post }

theorem edited_edited (append : Bool) (fw : EmsFw) (pre post morePre morePost : List DnatRule) :
    edited append (edited append fw pre post) morePre morePost = edited append fw (pre ++ morePre) (post ++ morePost) := by
  rw [edited, edited, edited, ipt_append, ipt_append]

end Edits

section Calls

variable (fw : EmsFw) (http : EmsHttp) (enable : Bool)

@[simp] theorem set_nas_free_run (addr : Str) (src dst : Int) : (fwSetNasFree fw addr src dst enable).run = fw.run := by
  rw [fwSetNasFree]
  split <;> rfl

@[simp] theorem set_http_free_run (src dst : Int) : (fwSetHttpFree fw src dst enable).run = fw.run := by
  rw [fwSetHttpFree]
  split <;> rfl

@[simp] theorem fw_call_run (call : FwCall) : (fwCall fw call).run = fw.run := by
  by_cases run : fw.run = true
  · cases call <;> simp [fwCall, run]
  · simp [fwCall, run]

@[simp] theorem set_free_run : (httpSetFree enable fw http).run = fw.run := by
  have entries (keys : List Str) (fw : EmsFw) : (keys.foldl (fun fw key =>
      if (inetAddr key).isSome then fwCall fw (.setGreyFree key http.srcPort http.dstPort enable) else fw) fw).run =
      fw.run := by
    induction keys generalizing fw with
    | nil => rfl
    | cons key rest ih =>
      rw [List.foldl_cons, ih]
      split
      · exact fw_call_run fw _
      · rfl
  rw [httpSetFree, httpSetHttpFree, fw_call_run]
  have nas : (if http.nasGetInfo then httpSetNasFree http enable fw else fw).run = fw.run := by
    rw [httpSetNasFree]
    split
    · split
      · exact fw_call_run fw _
      · rfl
    · rfl
  split
  · rw [httpSetGreyFree, entries, nas]
  · exact nas

theorem ipt_exec_bare (rule : DnatRule) : fwIptExec false rule (some []) = some [] := rfl

theorem set_nas_free_bare (bare : Bare fw) (addr : Str) (src dst : Int) : fwSetNasFree fw addr src dst false = fw := by
  rw [fwSetNasFree, fwNasSetFree, bare.pre, ipt_exec_bare, ← bare.pre]
  exact ite_self fw

theorem set_http_free_bare (bare : Bare fw) (src dst : Int) : fwSetHttpFree fw src dst false = fw := by
  rw [fwSetHttpFree, fwHttpSetFree, bare.post, ipt_exec_bare, ← bare.post]
  exact ite_self fw

theorem stopped_bare (bare : Bare fw) : httpStopped fw http = fw := by
  have nas : httpSetNasFree http false fw = fw := by simp only [httpSetNasFree, fwCall, set_nas_free_bare fw bare, ite_self]
  have grey : httpSetGreyFree http false fw = fw := by
    rw [httpSetGreyFree]
    induction http.grey with
    | nil => rfl
    | cons key rest ih =>
      rw [List.foldl_cons]
      simp only [fwCall, set_nas_free_bare fw bare, ite_self] at ih ⊢
      exact ih
  simp only [httpStopped, httpSetFree, nas, grey, ite_self, httpSetHttpFree, fwCall, set_http_free_bare fw bare]

theorem address_call (fine : Fine http) (text : Str) (addr : Codec.Fw.Addr) (written : inetAddr text = some addr) :
    fwSetNasFree fw text http.srcPort http.dstPort enable = edited enable fw [addressRule http addr] [] := by
  have some : 0 < text.length := by
    apply List.length_pos_of_ne_nil
    intro empty
    rw [empty] at written
    cases written
  rw [fwSetNasFree, if_pos ⟨some, fine.srcPort, fine.dstPort⟩, fwNasSetFree, written]
  rfl

theorem nas_spec (run : fw.run = true) (fine : Fine http) : (if http.nasGetInfo then httpSetNasFree http enable fw else fw) =
      edited enable fw ((inetAddr http.nas).toList.map (addressRule http)) [] := by
  cases written : inetAddr _ with
  | none =>
    rw [httpSetNasFree, written]
    exact ite_self fw
  | some addr =>
    have flag : http.nasGetInfo = true := by
      by_contra off
      rw [fine.nas (Bool.eq_false_iff.mpr off)] at written
      cases written
    rw [if_pos flag, httpSetNasFree, written, if_pos Option.isSome_some, fwCall, if_pos run]
    exact address_call fw http _ fine _ addr written

theorem grey_loop (run : fw.run = true) (fine : Fine http) (keys : List Str) : keys.foldl (fun fw key =>
      if (inetAddr key).isSome then fwCall fw (.setGreyFree key http.srcPort http.dstPort enable) else fw) fw =
      edited enable fw ((keys.filterMap inetAddr).map (addressRule http)) [] := by
  induction keys generalizing fw with
  | nil => rfl
  | cons key rest ih =>
    rw [List.foldl_cons]
    cases written : inetAddr key with
    | none =>
      rw [List.filterMap_cons_none written]
      exact ih fw run
    | some addr =>
      rw [List.filterMap_cons_some written, if_pos Option.isSome_some, fwCall, if_pos run]
      rw [address_call fw http _ fine key addr written, ih (edited _ fw _ []) run]
      rfl

theorem grey_spec (run : fw.run = true) (fine : Fine http) : (if http.greyList then httpSetGreyFree http enable fw else fw) =
      edited enable fw ((greyAddresses http).map (addressRule http)) [] := by
  by_cases flag : http.greyList = true
  · rw [if_pos flag]
    exact grey_loop fw http _ run fine _
  · rw [if_neg flag, greyAddresses, fine.grey (Bool.eq_false_iff.mpr flag)]
    rfl

theorem set_free_spec (run : fw.run = true) (fine : Fine http) :
    httpSetFree enable fw http = edited enable fw (calledRules http) [portRule http] := by
  have grey := grey_spec (edited enable fw ((inetAddr http.nas).toList.map (addressRule http)) []) http enable run fine
  rw [httpSetFree, nas_spec fw http _ run fine, grey, httpSetHttpFree, edited_edited, fwCall, if_pos (by exact run),
    fwSetHttpFree, if_pos ⟨fine.srcPort, fine.dstPort⟩, ← List.map_append, ← calledRules]
  rfl

end Calls

section Lists

variable (fw : EmsFw) (list : List EmsHttp)

theorem all_free_run (enable : Bool) : (list.foldl (httpSetFree enable) fw).run = fw.run := by
  induction list generalizing fw with
  | nil => rfl
  | cons http rest ih => rw [List.foldl_cons, ih, set_free_run]

theorem all_free_spec (enable : Bool) (run : fw.run = true) (fine : ∀ http ∈ list, Fine http) :
    list.foldl (httpSetFree enable) fw = edited enable fw (list.flatMap calledRules) (list.map portRule) := by
  induction list generalizing fw with
  | nil => rfl
  | cons http rest ih =>
    have others : ∀ other ∈ rest, Fine _ := fun other there => fine _ (List.mem_cons_of_mem http there)
    have later := ih (edited enable fw (calledRules http) [portRule http]) run others
    rw [List.foldl_cons, set_free_spec fw http _ run (fine http List.mem_cons_self), later, edited_edited]
    rfl

theorem all_stopped_bare (bare : Bare fw) : list.foldl httpStopped fw = fw := by
  induction list with
  | nil => rfl
  | cons http rest ih => rw [List.foldl_cons, stopped_bare fw http bare, ih]

end Lists

end Codec.Ssid
