import Codec.Fw.Collisions

set_option autoImplicit false

namespace Codec.Fw

open Codec.Lib

def AnswersOwn (msg : Sent) : Prop :=
  ∃ answer ∈ msg.answer, answer.query.origin = .client msg.addr msg.port ∧
    dnsId answer.query.data = dnsId msg.data ∧ msg.data = answer.reply

def Accepted (fw next : EmsFw) (asker : Asker) (data : List UInt8) : Prop :=
  (∃ user ∈ next.users, user.asker = asker ∧ user.origin = asker ∧ user.data = data ∧ user.id ∈ next.fwd) ∧
  ∀ user ∈ fw.users, user.asker ≠ asker → user ∈ next.users ∧
    (user.id ∈ fw.fwd → user.id ∈ next.fwd) ∧ (user.id ∈ fw.wait → user.id ∈ next.wait) ∧
    (user.id ∈ fw.out → user.id ∈ next.out)

def Echoes (fw : EmsFw) : Event → Prop
  | .reply _ query datagram => ∃ asked ∈ fw.upstream[query]?,
      dnsId asked.data = dnsId datagram ∧
      (fwDnsGetQuestion asked.data).map Prod.fst = (fwDnsGetQuestion datagram).map Prod.fst
  | _ => True

def OwnIds (fw : EmsFw) : Event → Prop
  | .request addr port datagram => ∀ sess ∈ fw.sessBind, datagram ≠ [] →
      ∀ user ∈ dnsFindUser fw (dnsId (sess.receive datagram)), user.asker = .client addr port
  | .reply _ query datagram => ∀ sess ∈ fw.sessDns, datagram ≠ [] →
      ∀ user ∈ dnsFindUser fw (dnsId (sess.receive datagram)), user.querySelf = false →
        datagram.length ≤ bufSize ∧ ∀ asked ∈ fw.upstream[query]?, user.asker = asked.origin
  | _ => True

instance (fw : EmsFw) (event : Event) : Decidable (Echoes fw event) := by
  rcases event <;> unfold Echoes <;> infer_instance

instance (fw : EmsFw) (event : Event) : Decidable (OwnIds fw event) := by
  rcases event <;> unfold OwnIds <;> infer_instance

def Heard (user : DnsUser) (data : List UInt8) (answer : Option Answer) : Prop :=
  user.querySelf = false → ∃ heard ∈ answer, heard.query.origin = user.asker ∧
    dnsId heard.query.data = dnsId data ∧ data = heard.reply

def Given (_ : Ledger) (_ : List UInt16) : Prop := True

theorem own_allows (fw : EmsFw) (event : Event) (echoes : Echoes fw event) (own : OwnIds fw event) :
    Allows Given (fun user asker => user.asker = asker) Heard fw event := by
  cases event with
  | request addr port datagram => exact own
  | reply enable query datagram =>
    obtain ⟨asked, hit, same, _⟩ := echoes
    intro sess bound full user found client
    obtain ⟨fits, origin⟩ := own sess bound full user found client
    have whole : datagram.take _ = datagram := List.take_of_length_le fits
    refine ⟨⟨asked, datagram⟩, ?_, (origin _ hit).symm, ?_, whole⟩
    · rw [EmsFw.answerTo, Option.mem_def.mp hit]
      rfl
    · rw [whole]
      exact same
  | flush lists id => exact fun _ => trivial
  | checkUrlWhitelist addr id => exact fun _ => trivial
  | checkSubdomain enable url id => exact fun _ => trivial
  | schedule id => exact fun _ => trivial
  | _ => trivial

def Answered (user : DnsUser) : Prop := user.querySelf = false ∧ Heard user user.data user.answer

structure Sound (book : Ledger) : Prop where
  table : Table book
  out : ∀ user ∈ book.users, user.id ∈ book.out → Answered user
  sent : ∀ msg ∈ book.sent, AnswersOwn msg

theorem out_kept (book next : Ledger) (id : Nat) (change : DnsUser → DnsUser)
    (old : ∀ user ∈ book.users, user.id ∈ book.out → Answered user)
    (users : next.users = book.users.map fun user => if user.id = id then change user else user)
    (same : ∀ user, (change user).id = user.id) (outs : ∀ other, other ≠ id → other ∈ next.out → other ∈ book.out)
    (edited : ∀ user ∈ book.users, user.id = id → id ∈ next.out → Answered (change user)) :
    ∀ user ∈ next.users, user.id ∈ next.out → Answered user := by
  intro user there inside
  rw [users] at there
  obtain ⟨before, member, shape⟩ := List.mem_map.mp there
  by_cases own : before.id = id
  · rw [if_pos own] at shape
    rw [← shape]
    apply edited _ member own
    rw [← own, ← same _, shape]
    exact inside
  · rw [if_neg own] at shape
    rw [← shape] at inside ⊢
    exact old _ member (outs _ own inside)

theorem effect_sound (book next : Ledger) (sound : Sound book)
    (effect : Effect (fun _ _ => True) (fun user asker => user.asker = asker) Heard book next) : Sound next := by
  have table := sound.table
  have shorter (id other : Nat) : other ∈ (book.dequeue id).out → other ∈ book.out :=
    fun inside => ((out_dequeue book table id _).mp inside).1
  have gone (id : Nat) : id ∉ (book.dequeue id).out := fun inside => ((out_dequeue book table id id).mp inside).2 rfl
  refine ⟨effect_table book table _ _ _ next effect, ?_, ?_⟩
  · cases effect with
    | fresh user new own unanswered admitted =>
      rw [push_add book table user new]
      intro other there inside
      rcases List.mem_append.mp there with old | single
      · exact sound.out _ old inside
      · rw [List.mem_singleton.mp single] at inside
        obtain ⟨old, member, same⟩ := (queued_iff book table user.id).mp (List.mem_append_right _ inside)
        have below := table.below old member
        omega
    | resend key user found origin data heeded =>
      apply out_kept book _ _ _ sound.out (resend_users book user _ data) (fun _ => rfl)
      · exact fun other _ => shorter _ _
      · exact fun _ _ _ inside => absurd inside (gone _)
    | forward user there queued =>
      apply out_kept book _ _ (fun user => { user with data := [] }) sound.out rfl (fun _ => rfl)
      · exact fun other _ => shorter _ _
      · exact fun _ _ _ inside => absurd inside (gone _)
    | answered key user found data answer client heard =>
      apply out_kept book (book.answered user data _) _ _ sound.out (detach_users book _ data _)
        (fun _ => rfl)
      · intro other apart inside
        rcases List.mem_append.mp inside with old | single
        · exact shorter _ _ old
        · exact absurd (List.mem_singleton.mp single) apart
      · intro old member same _
        have itself : old = user := List.inj_on_of_nodup_map table.distinct member (find_mem book table key user found).1 same
        rw [itself]
        exact ⟨client, heard⟩
    | dropped key user found data answer =>
      have left : ((book.detach user.id data answer).free user.id).users = book.users.filter (·.id ≠ user.id) := by
        change (book.detach _ data _).users.filter _ = _
        rw [detach_users book _ data _]
        exact filter_edited _ _ _ fun _ => rfl
      intro other there inside
      rw [left] at there
      exact sound.out _ (List.mem_of_mem_filter there) (shorter _ _ inside)
    | deliver user there queued =>
      exact fun other member inside => sound.out _ (List.mem_of_mem_filter member) (shorter _ _ inside)
    | expire user there pending =>
      have left : (book.expire _).users = book.users.filter _ := filter_edited _ user.id _ fun _ => rfl
      intro other member inside
      rw [left] at member
      exact sound.out _ (List.mem_of_mem_filter member) (shorter _ _ inside)
    | reset => exact fun _ absent => nomatch absent
  · cases effect with
    | deliver user there queued =>
      intro msg inside
      rcases List.mem_append.mp inside with old | single
      · exact sound.sent msg old
      · obtain ⟨client, heard⟩ := sound.out user (user_mem book _ user there).1 queued
        obtain ⟨answer, given, origin, same, whole⟩ := heard client
        have asker : user.asker = .client user.addr user.port := by
          rw [DnsUser.asker, client]
          rfl
        rw [List.mem_singleton.mp single]
        exact ⟨answer, given, origin.trans asker, same, whole⟩
    | fresh | resend | forward | answered | dropped | expire | reset => exact sound.sent

theorem fwd_accepted (fw : EmsFw) (table : Table fw.ledger) (id : UInt16) (addr : Addr) (port : UInt16)
    (data : List UInt8) (own : ∀ user ∈ dnsFindUser fw id, user.asker = .client addr port) :
    Accepted fw (fwDnsFwd fw id addr port data) (.client addr port) data := by
  cases found : dnsFindUser fw id with
  | some user =>
    have hit : fw.ledger.find id = some user := found
    have there := (find_mem _ table id user hit).1
    have asker := own user found
    have next : (fwDnsFwd fw id addr port data).ledger = fw.ledger.resend user (.client addr port) data := by
      simp only [fwDnsFwd, found, client_set_write_ledger]
      rfl
    have users : (fwDnsFwd fw id addr port data).users = _ := (congrArg _ next).trans (resend_users _ user _ data)
    have fwd : (fwDnsFwd fw id addr port data).fwd = fw.fwd.erase _ ++ [user.id] := congrArg Ledger.fwd next
    have wait : (fwDnsFwd fw id addr port data).wait = fw.wait.erase _ := congrArg Ledger.wait next
    have out : (fwDnsFwd fw id addr port data).out = fw.out.erase _ := congrArg Ledger.out next
    rw [Accepted, users, fwd, wait, out]
    constructor
    · refine ⟨_, List.mem_map_of_mem there, ?_⟩
      rw [if_pos rfl]
      exact ⟨asker, rfl, rfl, List.mem_append_right _ List.mem_cons_self⟩
    · intro other member foreign
      have apart : other.id ≠ user.id := by
        intro same
        have itself : other = user := List.inj_on_of_nodup_map table.distinct member there same
        exact foreign (itself ▸ asker)
      refine ⟨?_, ?_, ?_, ?_⟩
      · exact List.mem_map.mpr ⟨other, member, if_neg apart⟩
      · exact fun queued => List.mem_append_left _ ((List.mem_erase_of_ne apart).mpr queued)
      · exact fun queued => (List.mem_erase_of_ne apart).mpr queued
      · exact fun queued => (List.mem_erase_of_ne apart).mpr queued
  | none =>
    let user : DnsUser :=
      { id := fw.nextUser
        key := id
        querySelf := false
        addr := addr
        port := port
        data := data
        timer := none
        origin := .client addr port
        answer := none }
    have next : (fwDnsFwd fw id addr port data).ledger = (fw.ledger.add user).push user := by
      simp only [fwDnsFwd, found, client_set_write_ledger]
      rfl
    rw [push_add _ table user rfl] at next
    have users : (fwDnsFwd fw id addr port data).users = fw.users ++ [{ user with timer := some _ }] :=
      congrArg Ledger.users next
    have fwd : (fwDnsFwd fw id addr port data).fwd = fw.fwd ++ [fw.nextUser] := congrArg Ledger.fwd next
    have wait : (fwDnsFwd fw id addr port data).wait = fw.wait := congrArg Ledger.wait next
    have out : (fwDnsFwd fw id addr port data).out = fw.out := congrArg Ledger.out next
    rw [Accepted, users, fwd, wait, out]
    constructor
    · exact ⟨_, List.mem_append_right _ List.mem_cons_self, rfl, rfl, rfl, List.mem_append_right _ List.mem_cons_self⟩
    · intro other member _
      exact ⟨List.mem_append_left _ member, fun queued => List.mem_append_left _ queued, fun queued => queued,
        fun queued => queued⟩

theorem answers_reach_askers (events : List Event)
    (steps : AllSteps step (fun fw event => Echoes fw event ∧ OwnIds fw event) EmsFw.init events)
    (alive : (run step EmsFw.init events).fault = none) : (∀ msg ∈ (run step EmsFw.init events).sent, AnswersOwn msg) ∧
    ∀ addr port datagram, OwnIds (run step EmsFw.init events) (.request addr port datagram) →
      (run step EmsFw.init events).sessBind.isSome → datagram ≠ [] →
      Accepted (run step EmsFw.init events) (step (run step EmsFw.init events) (.request addr port datagram))
        (.client addr port) (datagram.take bufSize) := by
  have allowed := all_steps_imp step _ _ _ _
    (fun fw event both => own_allows fw _ both.1 both.2) steps
  have gives : Gives _ Given := ⟨fun _ _ _ _ => trivial, fun _ _ _ _ _ => trivial⟩
  have sound := run_keeps_ledger _ _ _ _ gives _
    ⟨table_init, (fun _ absent => nomatch absent), (fun _ absent => nomatch absent)⟩ effect_sound _ allowed alive
  refine ⟨sound.sent, ?_⟩
  intro addr port datagram own open' full
  generalize run step _ _ = fw at alive sound own open'
  obtain ⟨sess, bound⟩ := Option.isSome_iff_exists.mp open'
  have next : step fw (.request addr port datagram) =
      fwDnsFwd { fw with sessBind := some { sess with mem := sess.receive datagram } } (dnsId (sess.receive datagram))
        addr port (datagram.take bufSize) := by
    rw [step, EmsFw.andThen, if_pos alive, handle, fwDnsRequest, bound]
    simp only [if_neg full]
  rw [next]
  exact fwd_accepted { fw with sessBind := some _ } sound.table _ addr port _
    (own sess bound full)

def sampleReply (id : UInt16) : List UInt8 :=
  storeShort id ++ [0x81, 0x80, 0, 1, 0, 1, 0, 0, 0, 0] ++ (selfQuery sampleName id).drop 12 ++
    [0xc0, 12, 0, 1, 0, 1, 0, 0, 0, 60, 0, 4, 93, 184, 216, 34]

def twoClients (first second : UInt16) : List Event :=
  [.start (some 9300) true, .request 0x0a000002 4000 (selfQuery sampleName first),
    .request 0x0a000003 5000 (selfQuery sampleName second), .send 2, .reply true 0 (sampleReply first), .response 1]

def thirdRequest : EmsFw := step (run step EmsFw.init (twoClients 5 6)) (.request 0x0a000004 6000 (selfQuery sampleName 7))

theorem answers_reach_askers_sample : (∀ msg ∈ (run step EmsFw.init (twoClients 5 6)).sent, AnswersOwn msg) ∧
    Accepted (run step EmsFw.init (twoClients 5 6)) thirdRequest (.client 0x0a000004 6000)
      ((selfQuery sampleName 7).take bufSize) := by
  have served := answers_reach_askers (twoClients 5 6) (by decide +kernel) (by decide +kernel)
  exact ⟨served.1, served.2 _ 6000 _ (by decide +kernel) (by decide +kernel)
    (by decide +kernel)⟩

-- Under one id the second client's query takes the place of the first one's,
-- and the first client gets the reply to it.
theorem shared_id_misdelivers : ¬∀ events, AllSteps step Echoes EmsFw.init events →
    (run step EmsFw.init events).fault = none → ∀ msg ∈ (run step EmsFw.init events).sent, AnswersOwn msg := by
  intro own
  have sent := own (twoClients 5 5) (by decide +kernel) (by decide +kernel)
  have wrong : ∃ msg ∈ (run step EmsFw.init (twoClients 5 5)).sent, ∀ answer ∈ msg.answer,
      answer.query.origin ≠ .client msg.addr msg.port := by decide +kernel
  obtain ⟨msg, there, foreign⟩ := wrong
  obtain ⟨answer, given, origin, _⟩ := sent msg there
  exact foreign _ given origin

end Codec.Fw
