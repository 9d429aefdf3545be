import Codec.Fw.Effects
import Codec.Fw.Pending

set_option autoImplicit false

namespace Codec.Fw

open Codec.Ems Codec.Lib

structure Gives (admits : Ledger → UInt16 → Prop) (all : Ledger → List UInt16 → Prop) : Prop where
  first : ∀ book id rest, all book (id :: rest) → admits book id
  later : ∀ book user rest, user.id = book.nextUser → all book (user.key :: rest) → all ((book.add user).push user) rest

def Allows (all : Ledger → List UInt16 → Prop) (heeds : DnsUser → Asker → Prop)
    (hears : DnsUser → List UInt8 → Option Answer → Prop) (fw : EmsFw) : Event → Prop
  | .flush lists id => fw.run = true → all fw.ledger ((refill fw lists).asked id)
  | .checkUrlWhitelist addr id => fw.run = true ∧ addr ≠ [] ∧ inetAddr addr = none → all fw.ledger [id]
  | .checkSubdomain enable url id =>
    fw.run = true ∧ url ≠ [] ∧ enable = true ∧ dnsFindUrl fw url = none ∧ (fwDnsUrlSelect fw url).isSome →
      all fw.ledger [id]
  | .request addr port datagram => ∀ sess ∈ fw.sessBind, datagram ≠ [] →
      ∀ user ∈ dnsFindUser fw (dnsId (sess.receive datagram)), heeds user (.client addr port)
  | .reply _ query datagram => ∀ sess ∈ fw.sessDns, datagram ≠ [] →
      ∀ user ∈ dnsFindUser fw (dnsId (sess.receive datagram)),
        hears user (datagram.take bufSize) (fw.answerTo query datagram)
  | .schedule id => fw.sessBind.isSome → all fw.ledger (fw.asked id)
  | _ => True

section Handlers

variable (admits : Ledger → UInt16 → Prop) (heeds : DnsUser → Asker → Prop)
  (hears : DnsUser → List UInt8 → Option Answer → Prop) (all : Ledger → List UInt16 → Prop)

theorem effects_one (book next : Ledger) (effect : Effect admits heeds hears book next) : Effects admits heeds hears book next :=
  .single effect

theorem effects_same (book next : Ledger) (same : next = book) : Effects admits heeds hears book next := same ▸ .refl

theorem create_user_effect (fw : EmsFw) (name : Str) (id : UInt16) (admitted : admits fw.ledger id) :
    Effect admits heeds hears fw.ledger (fwDnsCreateUser fw name id).ledger := by
  let user : DnsUser :=
    { id := fw.nextUser
      key := id
      querySelf := true
      addr := 0x7f000001
      port := 0
      data := (selfQuery name id).take bufSize
      timer := none
      origin := .self
      answer := none }
  exact .fresh user rfl rfl rfl admitted

theorem triger_effects (gives : Gives admits all) (entries : List Nat) (fw : EmsFw) (id : UInt16)
    (ids : all fw.ledger (idsFrom id (entries.countP fw.asksAt))) :
    Effects admits heeds hears fw.ledger (entries.foldl trigerUrl (fw, id)).1.ledger := by
  induction entries generalizing fw id with
  | nil => exact .refl
  | cons entry rest ih =>
    have round := triger_url_round fw id entry
    have kept := round_asks fw id _ _ round
    rw [List.foldl_cons]
    generalize trigerUrl _ _ = next at round kept
    have count : rest.countP next.1.asksAt = rest.countP _ := List.countP_congr fun other _ => by rw [kept _]
    have quiet (found : fw.asksAt entry = false) (same : next.1.ledger = fw.ledger) (still : next.2 = id) :
        Effects admits heeds hears fw.ledger (rest.foldl trigerUrl next).1.ledger := by
      have later := ih next.1 next.2
      rw [same, count] at later
      rw [List.countP_cons_of_neg (by rw [found]; decide)] at ids
      apply later
      rw [still]
      exact ids
    cases round with
    | skip found => exact quiet found rfl rfl
    | mark url found calm mask empty => exact quiet (by rw [EmsFw.asksAt, found]; exact calm) rfl rfl
    | expire url found full => exact quiet (by rw [EmsFw.asksAt, found]; simp [DnsUrl.asks, full]) rfl rfl
    | rename url found splits =>
      exact quiet (by rw [EmsFw.asksAt, found]; exact asks_plain url (splits_part url splits).1) rfl rfl
    | fix url fixed found calm addr empty shape => exact quiet (by rw [EmsFw.asksAt, found]; exact calm) rfl rfl
    | ask url found asks =>
      have here : fw.asksAt entry = true := by rw [EmsFw.asksAt, found]; exact asks
      rw [List.countP_cons_of_pos here, idsFrom] at ids
      have admitted := gives.first _ _ _ ids
      have created := create_user_effect _ heeds hears (fw.editUrl entry fun _ => url) url.url id admitted
      refine (effects_one _ _ _ _ _ created).trans ?_
      apply ih
      rw [count]
      exact gives.later fw.ledger _ _ rfl ids

theorem query_triger_effects (gives : Gives admits all) (fw : EmsFw) (id : UInt16)
    (ids : all fw.ledger (fw.asked id)) : Effects admits heeds hears fw.ledger (fwDnsQueryTriger fw id).ledger := by
  have rounds := triger_effects _ heeds hears all gives _ fw id ids
  refine rounds.trans (effects_same _ _ _ _ _ ?_)
  rw [fwDnsQueryTriger]
  split
  · rfl
  · rw [client_set_write_ledger]
    rfl

theorem refill_ledger (fw : EmsFw) (lists : Bwlist) : (refill fw lists).ledger = fw.ledger := by
  simp only [refill, append_urls_ledger]
  rfl

theorem in_whitelist_effects (gives : Gives admits all) (enable : Bool) (fw : EmsFw) (key : Str) (id : UInt16)
    (ids : enable = true ∧ dnsFindUrl fw key = none ∧ (fwDnsUrlSelect fw key).isSome → all fw.ledger [id]) :
    Effects admits heeds hears fw.ledger (fwUrlInWhitelist enable fw key id).ledger := by
  cases known : dnsFindUrl fw key with
  | some url =>
    apply effects_same
    simp only [fwUrlInWhitelist, known]
    split
    · rfl
    · rfl
  | none =>
    cases selected : fwDnsUrlSelect fw key with
    | none =>
      apply effects_same
      simp only [fwUrlInWhitelist, known, selected]
    | some parent =>
      by_cases enabled : enable = true
      · have admitted := gives.first _ _ _ (ids ⟨enabled, known, by rw [selected]; rfl⟩)
        have appended := subdomain_append_ledger fw (newUrl fw.nextUrl key parent.blacklist)
        rw [← appended] at admitted ⊢
        have created := create_user_effect _ heeds hears _ key id admitted
        refine (effects_one _ _ _ _ _ created).trans (effects_same _ _ _ _ _ ?_)
        simp only [fwUrlInWhitelist, known, selected, if_pos enabled, client_set_write_ledger]
      · apply effects_same
        simp only [fwUrlInWhitelist, known, selected, if_neg enabled]

theorem whitelist_insert_effects (gives : Gives admits all) (fw : EmsFw) (white : Str) (id : UInt16)
    (ids : inetAddr white = none → all fw.ledger [id]) :
    Effects admits heeds hears fw.ledger (fwUrlWhitelistInsert fw white id).ledger := by
  have appended := subdomain_append_ledger fw (newUrl fw.nextUrl white false)
  cases written : inetAddr _ with
  | none =>
    have admitted := gives.first _ _ _ (ids written)
    rw [← appended] at admitted ⊢
    have created := create_user_effect _ heeds hears _ white id admitted
    refine (effects_one _ _ _ _ _ created).trans (effects_same _ _ _ _ _ ?_)
    simp only [fwUrlWhitelistInsert, written, client_set_write_ledger]
  | some addr =>
    apply effects_same
    rw [← appended]
    simp only [fwUrlWhitelistInsert, written]
    split
    · rfl
    · rfl

theorem fwd_effects (fw : EmsFw) (id : UInt16) (addr : Addr) (port : UInt16) (data : List UInt8)
    (heeded : ∀ user ∈ dnsFindUser fw id, heeds user (.client addr port)) :
    Effects admits heeds hears fw.ledger (fwDnsFwd fw id addr port data).ledger := by
  cases found : dnsFindUser fw id with
  | some user =>
    have again : Effect admits _ hears _ _ :=
      .resend id user (show fw.ledger.find id = some user from found) _ data (heeded user found)
    refine (effects_one _ _ _ _ _ again).trans (effects_same _ _ _ _ _ ?_)
    simp only [fwDnsFwd, found, client_set_write_ledger]
    rfl
  | none =>
    let user : DnsUser :=
      { id := fw.nextUser
        key := id
        querySelf := false
        addr := addr
        port := port
        data := data
        timer := none
        origin := .client addr port
        answer := none }
    have entered : Effect admits heeds hears _ _ := .fresh user rfl rfl rfl (show fw.ledger.find id = none from found)
    refine (effects_one _ _ _ _ _ entered).trans (effects_same _ _ _ _ _ ?_)
    simp only [fwDnsFwd, found, client_set_write_ledger]
    rfl

theorem request_effects (fw : EmsFw) (addr : Addr) (port : UInt16) (datagram : List UInt8)
    (allows : Allows all heeds hears fw (.request addr port datagram)) :
    Effects admits heeds hears fw.ledger (fwDnsRequest fw addr port datagram).ledger := by
  cases bound : fw.sessBind with
  | none =>
    apply effects_same
    simp only [fwDnsRequest, bound]
  | some sess =>
    by_cases empty : datagram = []
    · apply effects_same
      simp only [fwDnsRequest, bound, if_pos empty]
    · simp only [fwDnsRequest, bound, if_neg empty]
      let received := { fw with sessBind := some { sess with mem := sess.receive datagram } }
      exact fwd_effects _ _ _ received _ addr port _ (allows sess bound empty)

theorem response_effects (fw : EmsFw) (sends : Nat) : Effects admits heeds hears fw.ledger (fwDnsResponse fw sends).ledger := by
  have rounds (ids : List Nat) (fw : EmsFw) (there : ids.Sublist fw.out) :
      Effects admits heeds hears fw.ledger (ids.foldl deliver fw).ledger := by
    induction ids generalizing fw with
    | nil => exact .refl
    | cons id rest ih =>
      rw [List.foldl_cons]
      cases found : fw.user? id with
      | none =>
        have same : deliver fw id = fw := by simp only [deliver, found]
        rw [same]
        exact ih fw ((List.sublist_cons_self id rest).trans there)
      | some user =>
        have named := (user_mem fw.ledger id user found).2
        have delivered : (deliver fw id).ledger = fw.ledger.deliver user := by
          rw [deliver, found, Ledger.deliver, named]
          rfl
        have left : rest.Sublist (deliver fw id).out := by
          have shorter := there.erase id
          rw [List.erase_cons_head] at shorter
          rw [deliver, found]
          exact shorter
        have effect : Effect admits heeds hears fw.ledger (deliver fw id).ledger := by
          rw [delivered]
          apply Effect.deliver
          · rw [named]
            exact found
          · rw [named]
            exact there.subset List.mem_cons_self
        exact (effects_one _ _ _ _ _ effect).trans (ih _ left)
  have sent := rounds (fw.out.take sends) fw (List.take_sublist _ _)
  refine sent.trans (effects_same _ _ _ _ _ ?_)
  rw [fwDnsResponse]
  split
  · exact server_set_write_ledger _ _
  · rfl

theorem send_effects (fw : EmsFw) (sends : Nat) : Effects admits heeds hears fw.ledger (fwDnsFwdReq fw sends).ledger := by
  have rounds (ids : List Nat) (fw : EmsFw) (there : ids.Sublist fw.fwd) :
      Effects admits heeds hears fw.ledger (ids.foldl forward fw).ledger := by
    induction ids generalizing fw with
    | nil => exact .refl
    | cons id rest ih =>
      rw [List.foldl_cons]
      cases found : fw.user? id with
      | none =>
        have same : forward fw id = fw := by simp only [forward, found]
        rw [same]
        exact ih fw ((List.sublist_cons_self id rest).trans there)
      | some user =>
        have named := (user_mem fw.ledger id user found).2
        have forwarded : (forward fw id).ledger = fw.ledger.forward user := by
          rw [forward, found, Ledger.forward, named]
          rfl
        have left : rest.Sublist (forward fw id).fwd := by
          have shorter := there.erase id
          rw [List.erase_cons_head] at shorter
          rw [forward, found]
          exact shorter
        have effect : Effect admits heeds hears fw.ledger (forward fw id).ledger := by
          rw [forwarded]
          apply Effect.forward
          · rw [named]
            exact found
          · rw [named]
            exact there.subset List.mem_cons_self
        exact (effects_one _ _ _ _ _ effect).trans (ih _ left)
  have sent := rounds (fw.fwd.take sends) fw (List.take_sublist _ _)
  refine sent.trans (effects_same _ _ _ _ _ ?_)
  rw [fwDnsFwdReq, and_then_ledger]
  · split
    · rfl
    · exact client_set_read_ledger _ true
  · intro fw
    split
    · exact client_set_write_ledger fw _
    · rfl

theorem timeout_effects (fw : EmsFw) (id : Nat) : Effects admits heeds hears fw.ledger (dnsFwdTimeout fw id).ledger := by
  cases found : fw.user? id with
  | none =>
    apply effects_same
    simp only [dnsFwdTimeout, found]
  | some user =>
    by_cases idle : user.timer = none
    · apply effects_same
      simp only [dnsFwdTimeout, found, if_pos idle]
    · have named := (user_mem fw.ledger id user found).2
      have expired : Effect admits heeds hears fw.ledger _ := .expire user (by rw [named]; exact found) idle
      refine (effects_one _ _ _ _ _ expired).trans (effects_same _ _ _ _ _ ?_)
      simp only [dnsFwdTimeout, found, if_neg idle, named]
      rfl

theorem filter_effects (enable : Bool) (fw : EmsFw) (mem data : List UInt8) (answer : Option Answer)
    (heard : ∀ user ∈ dnsFindUser fw (dnsId mem), hears user data answer)
    (alive : (fwDnsFwdFilter enable fw mem data answer).fault = none) :
    Effects admits heeds hears fw.ledger (fwDnsFwdFilter enable fw mem data answer).ledger := by
  cases found : dnsFindUser fw (dnsId mem) with
  | none =>
    apply effects_same
    simp only [fwDnsFwdFilter, found]
  | some user =>
    let taken := fw.takeReply user.id data answer
    have hit : fw.ledger.find _ = some user := found
    have filtered : (filterReply enable mem user.querySelf taken).ledger = fw.ledger.detach user.id data answer := by
      rw [filterReply]
      split
      · exact parse_and_filter_ledger _ _ mem _
      · rfl
    have next : fwDnsFwdFilter enable fw mem data answer =
        (filterReply enable mem user.querySelf taken).andThen fun fw => fw.giveBack user := by
      simp only [fwDnsFwdFilter, found]
      rfl
    rw [next] at alive ⊢
    generalize filterReply _ mem _ _ = parsed at filtered alive ⊢
    by_cases crashed : parsed.fault = none
    · simp only [EmsFw.andThen, if_pos crashed, EmsFw.giveBack]
      by_cases own : user.querySelf = true
      · have dropped : Effect admits heeds hears _ _ :=
          .dropped _ user hit data answer
        rw [if_pos own]
        refine (effects_one _ _ _ _ _ dropped).trans (effects_same _ _ _ _ _ ?_)
        rw [← filtered]
        rfl
      · have answered : Effect admits heeds _ _ _ :=
          .answered _ user hit data _ (eq_false_of_ne_true own) (heard user found)
        rw [if_neg own]
        refine (effects_one _ _ _ _ _ answered).trans (effects_same _ _ _ _ _ ?_)
        rw [server_set_write_ledger, Ledger.answered, ← filtered]
        rfl
    · simp only [EmsFw.andThen, if_neg crashed] at alive
      exact absurd alive crashed

theorem reply_effects (enable : Bool) (fw : EmsFw) (query : Nat) (datagram : List UInt8)
    (allows : Allows all heeds hears fw (.reply enable query datagram))
    (alive : (fwDnsFwdRsp enable fw query datagram).fault = none) :
    Effects admits heeds hears fw.ledger (fwDnsFwdRsp enable fw query datagram).ledger := by
  cases bound : fw.sessDns with
  | none =>
    apply effects_same
    simp only [fwDnsFwdRsp, bound]
  | some sess =>
    by_cases empty : datagram = []
    · apply effects_same
      simp only [fwDnsFwdRsp, bound, if_pos empty]
    · let received := { fw with sessDns := some { sess with mem := sess.receive datagram } }
      have next : fwDnsFwdRsp enable fw query datagram =
          fwDnsFwdFilter enable received (sess.receive datagram) (datagram.take bufSize)
            (fw.answerTo query datagram) := by
        simp only [fwDnsFwdRsp, bound, if_neg empty]
        rfl
      rw [next] at alive ⊢
      exact filter_effects _ _ _ _ received _ _ _ (allows sess bound empty) alive

theorem handle_effects (gives : Gives admits all) (fw : EmsFw) (event : Event) (allows : Allows all heeds hears fw event)
    (alive : (handle fw event).fault = none) : Effects admits heeds hears fw.ledger (handle fw event).ledger := by
  have same (next : EmsFw) (kept : next.ledger = fw.ledger) : Effects _ _ _ _ _ := effects_same admits heeds hears _ _ kept
  cases event with
  | start bind connect =>
    rw [handle]
    split
    · exact .refl
    · exact same _ rfl
  | stop =>
    rw [handle]
    split
    · exact effects_one _ _ _ _ _ .reset
    · exact .refl
  | flush lists id =>
    rw [handle]
    split
    · rename_i running
      have filled := refill_ledger fw lists
      have triggered := query_triger_effects _ heeds hears all gives (refill fw lists) id
      rw [filled] at triggered
      exact triggered (allows running)
    · exact .refl
  | addressAdd names =>
    rw [handle]
    split
    · exact same _ (append_urls_ledger fw _ _)
    · exact .refl
  | addressDel names =>
    rw [handle]
    split
    · exact same _ (remove_urls_ledger fw _)
    · exact .refl
  | checkUrlWhitelist addr id =>
    rw [handle]
    split
    · rename_i running
      apply whitelist_insert_effects _ _ _ all gives
      exact fun written => allows ⟨running.1, running.2, written⟩
    · exact .refl
  | checkSubdomain enable url id =>
    rw [handle]
    split
    · rename_i running
      apply in_whitelist_effects _ _ _ all gives
      exact fun asks => allows ⟨running.1, running.2, asks⟩
    · exact .refl
  | request addr port datagram => exact request_effects _ _ _ all fw addr port _ allows
  | response sends =>
    rw [handle]
    split
    · exact response_effects _ _ _ fw _
    · exact .refl
  | serverErr bind =>
    rw [handle]
    split
    · exact same _ rfl
    · exact .refl
  | reply enable query datagram => exact reply_effects _ _ _ all _ fw _ _ allows alive
  | send sends =>
    rw [handle]
    split
    · exact send_effects _ _ _ fw _
    · exact .refl
  | clientErr connect =>
    rw [handle]
    split
    · exact same _ rfl
    · exact .refl
  | timeout user => exact timeout_effects _ _ _ fw user
  | schedule id =>
    rw [handle]
    split
    · rename_i bound
      exact query_triger_effects _ _ _ all gives fw id (allows bound)
    · exact .refl

theorem step_effects (gives : Gives admits all) (fw : EmsFw) (event : Event) (allows : Allows all heeds hears fw event)
    (alive : (step fw event).fault = none) : Effects admits heeds hears fw.ledger (step fw event).ledger := by
  rw [step, EmsFw.andThen] at alive ⊢
  split
  · rename_i running
    rw [if_pos running] at alive
    exact handle_effects _ _ _ all gives fw _ allows alive
  · exact .refl

theorem run_keeps_ledger (gives : Gives admits all) (keeps : Ledger → Prop) (initial : keeps EmsFw.init.ledger)
    (preserved : ∀ book next, keeps book → Effect admits heeds hears book next → keeps next) (events : List Event)
    (steps : AllSteps step (Allows all heeds hears) EmsFw.init events)
    (alive : (run step EmsFw.init events).fault = none) : keeps (run step EmsFw.init events).ledger := by
  have kept := run_keeps step (Allows all heeds hears) (fun fw => fw.fault = none → keeps _) _ events
    (fun _ => initial)
  apply kept _ steps alive
  intro fw event good allows live
  have before : fw.fault = none := by
    by_contra dead
    rw [step, EmsFw.andThen, if_neg dead] at live
    exact dead live
  exact effects_keep _ _ _ _ preserved _ _ (step_effects _ _ _ all gives fw _ allows live) (good before)

end Handlers

end Codec.Fw
