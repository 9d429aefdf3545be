import Codec.Sn.Tickets
import Codec.Sn.Udp

set_option autoImplicit false

namespace Codec.Sn

open Codec.Lib List

variable (s : Server)

-- A request for which a forward server was chosen and its ticket sent to it.
structure Chosen where
  request : Nat
  fd : Nat
  ticket : Ticket
  phone : Nat
  pc : Nat
  serverInfo : ServerInfo

structure Asked where
  number : Nat
  phone : Nat

-- An answer to the phone; the same bytes have gone to the PC, where there is one.
structure Answer where
  request : Nat
  phone : Nat
  pc : Option Nat
  info : FwdReply

-- The server with its requests: those received, those chosen for, what waits in
-- g_MapPeerInfo, the tickets whose answers are owed, those confirmed, and what
-- was answered.
structure Desk where
  server : Server
  asked : List Asked
  chosen : List Chosen
  parked : List Chosen
  owed : List (Nat × Ticket)
  confirmed : List (Nat × Ticket)
  answers : List Answer

def deskInit : Desk := ⟨snInit, [], [], [], [], [], []⟩

def Chosen.peer (c : Chosen) : PeerInfo := ⟨c.pc, c.phone, c.serverInfo⟩

section Step

variable (d : Desk)

-- The socket that ChoseForwardServer settles on.
def forwardsock : Nat :=
  match fewest s.mapTicketInfo with
  | some (fd, _) => fd
  | none => 0

def notified (fd : Nat) (mesg : TcpMesg) : Option (Nat × Ticket) :=
  if fd ∉ s.socketMask ∨ mesg.head = .eof ∨ (mesg.some ∧ mesg.body = .eof) ∨ mesg.opCode ≠ notifyTicketInfo ∨ ¬ mesg.some then none
  else mesg.json.map fun json => (mesg.rtnCode, json.ticket)

def noted (phone : Nat) : Desk := { d with asked := ⟨d.asked.length, phone⟩ :: d.asked }

def refuse (phone : Nat) (info : FwdReply) : Desk := { d with answers := ⟨d.asked.length, phone, none, info⟩ :: d.answers }

def park (c : Chosen) : Desk :=
  { d with
    chosen := c :: d.chosen
    owed := (c.fd, c.ticket) :: d.owed
    parked := if c.ticket ∈ d.server.mapPeerInfo.map Prod.fst then d.parked else c :: d.parked }

-- SendFwdInfoToPeer for the entry of the ticket, and the erased entry.
def hear (fd code : Nat) (ticket : Ticket) : Desk :=
  { d with
    owed := d.owed.filter fun owes => owes ≠ (fd, ticket)
    confirmed := if code = 0 then (fd, ticket) :: d.confirmed else d.confirmed
    parked := d.parked.filter fun c => c.ticket ≠ ticket
    answers := match d.server.mapPeerInfo.lookup ticket, d.parked.find? fun c => c.ticket = ticket with
      | some peer, some c =>
        if code = 0 then ⟨c.request, peer.phoneSock, some peer.pcSock, ⟨some peer.serverInfo, ticket, 0⟩⟩ :: d.answers else d.answers
      | _, _ => d.answers }

def deskRequest (peer : Option Nat) (phone : Nat) (draws : Draws) (sendOk : Bool) : Desk :=
  match peer with
  | none => refuse d phone noPeer
  | some pc =>
    match choseForwardServer d.server sendOk with
    | some info => park d ⟨d.asked.length, forwardsock d.server, draws.ticket, phone, pc, info⟩
    | none => refuse d phone (refusal d.server draws.ticket)

def deskWrites : SnStep → Desk
  | .request peer phone draws sendOk => noted (deskRequest d peer phone draws sendOk) phone
  | .otherUdp => d
  | .accept _ => d
  | .tcp fd mesg => match notified d.server fd mesg with
    | some (code, ticket) => hear d fd code ticket
    | none => d
  | .done _ => d

def deskStep (step : SnStep) : Desk := if d.server.stuck then d else { deskWrites d step with server := snStep d.server step }

end Step

structure AnsweredOnce (d : Desk) : Prop where
  once : (d.answers.map Answer.request).Nodup
  settled : (∀ owes ∈ d.owed, owes.1 ∉ mapKeys d.server.mapForwardInfo) → ∀ asked ∈ d.asked, asked.number ∈ d.answers.map Answer.request
  asker : ∀ answer ∈ d.answers, ⟨answer.request, answer.phone⟩ ∈ d.asked
  content : ∀ answer ∈ d.answers, (answer.info.cerror ≠ 0 ∧ answer.pc = none) ∨
    ∃ c ∈ d.chosen, c.request = answer.request ∧ c.phone = answer.phone ∧ answer.pc = some c.pc ∧
      answer.info = ⟨some c.serverInfo, c.ticket, 0⟩ ∧ (c.fd, c.ticket) ∈ d.confirmed
  waiting : ∀ entry ∈ d.server.mapPeerInfo, ∃ c ∈ d.chosen, entry = (c.ticket, c.peer) ∧ c.fd ∈ mapKeys d.server.mapForwardInfo

def Closes (fd : Nat) (mesg : TcpMesg) : Prop := fd ∈ s.socketMask ∧ (mesg.head = .eof ∨ (mesg.some ∧ mesg.body = .eof))

def ChosenAnswers (d : Desk) : SnStep → Prop
  | .request (some _) _ draws sendOk => (choseForwardServer d.server sendOk).isSome → draws.ticket ∉ d.server.mapPeerInfo.map Prod.fst
  | .tcp fd mesg =>
    (Closes d.server fd mesg → ∀ c ∈ d.parked, c.fd ≠ fd) ∧
      ∀ code ticket, notified d.server fd mesg = some (code, ticket) → ∀ c ∈ d.parked, c.ticket = ticket → code = 0 ∧ c.fd = fd
  | .done now => purgeRegistrationFrequency ≤ now → ∀ c ∈ d.parked, c.fd ∉ silentServers d.server now
  | _ => True

structure DeskInv (d : Desk) : Prop where
  peers : d.server.mapPeerInfo = d.parked.map fun c => (c.ticket, c.peer)
  tickets : (d.parked.map Chosen.ticket).Nodup
  owed : ∀ c ∈ d.parked, (c.fd, c.ticket) ∈ d.owed
  registered : ∀ c ∈ d.parked, c.fd ∈ mapKeys d.server.mapForwardInfo
  recorded : ∀ c ∈ d.parked, c ∈ d.chosen ∧ ⟨c.request, c.phone⟩ ∈ d.asked
  numbers : ∀ asked ∈ d.asked, asked.number < d.asked.length
  accounted : ∀ asked ∈ d.asked, asked.number ∈ d.answers.map Answer.request ++ d.parked.map Chosen.request
  apart : (d.answers.map Answer.request ++ d.parked.map Chosen.request).Nodup
  asker : ∀ answer ∈ d.answers, ⟨answer.request, answer.phone⟩ ∈ d.asked
  content : ∀ answer ∈ d.answers, (answer.info.cerror ≠ 0 ∧ answer.pc = none) ∨
    ∃ c ∈ d.chosen, c.request = answer.request ∧ c.phone = answer.phone ∧ answer.pc = some c.pc ∧
      answer.info = ⟨some c.serverInfo, c.ticket, 0⟩ ∧ (c.fd, c.ticket) ∈ d.confirmed
  free : d.server.mutexTicket = false

theorem inv_answered (d : Desk) (inv : DeskInv d) : AnsweredOnce d := by
  refine ⟨(nodup_append.mp inv.apart).1, fun nobody asked there => ?_, inv.asker, inv.content, fun entry there => ?_⟩
  · rcases mem_append.mp (inv.accounted _ there) with answered | waits
    · exact answered
    · obtain ⟨c, parked, _⟩ := mem_map.mp waits
      exact absurd (inv.registered c parked) (nobody _ (inv.owed c parked))
  · rw [inv.peers] at there
    obtain ⟨c, parked, rfl⟩ := mem_map.mp there
    exact ⟨c, (inv.recorded c parked).1, rfl, inv.registered c parked⟩

theorem inv_server (d : Desk) (inv : DeskInv d) (server : Server) (peers : server.mapPeerInfo = d.server.mapPeerInfo)
    (registered : ∀ c ∈ d.parked, c.fd ∈ mapKeys server.mapForwardInfo) (free : server.mutexTicket = d.server.mutexTicket) :
    DeskInv { d with server := server } :=
  ⟨peers.trans inv.peers, inv.tickets, inv.owed, registered, inv.recorded, inv.numbers, inv.accounted, inv.apart, inv.asker, inv.content,
    free.trans inv.free⟩

theorem number_fresh (d : Desk) (inv : DeskInv d) : d.asked.length ∉ d.answers.map Answer.request ++ d.parked.map Chosen.request := by
  intro old
  rcases mem_append.mp old with answered | waits
  · obtain ⟨answer, there, same⟩ := mem_map.mp answered
    exact absurd same (Nat.ne_of_lt (inv.numbers _ (inv.asker _ there)))
  · obtain ⟨c, there, same⟩ := mem_map.mp waits
    exact absurd same (Nat.ne_of_lt (inv.numbers _ (inv.recorded c there).2))

theorem numbers_received (d : Desk) (inv : DeskInv d) (phone : Nat) (asked : Asked) (there : asked ∈ (noted d phone).asked) :
    asked.number < (noted d phone).asked.length := by
  rcases mem_cons.mp there with rfl | old
  · exact Nat.lt_succ_self _
  · exact Nat.lt_succ_of_lt (inv.numbers _ old)

theorem inv_refuse (d : Desk) (inv : DeskInv d) (phone : Nat) (info : FwdReply) (error : info.cerror ≠ 0) :
    DeskInv (noted (refuse d phone info) phone) := by
  refine ⟨inv.peers, inv.tickets, inv.owed, inv.registered, fun c there => ?_, numbers_received d inv _, fun asked there => ?_,
    nodup_cons.mpr ⟨number_fresh d inv, inv.apart⟩, fun answer there => ?_, fun answer there => ?_, inv.free⟩
  · exact (inv.recorded c there).imp_right (mem_cons_of_mem _)
  · rcases mem_cons.mp there with rfl | old
    · exact mem_cons_self
    · exact mem_cons_of_mem _ (inv.accounted _ old)
  · rcases mem_cons.mp there with rfl | old
    · exact mem_cons_self
    · exact mem_cons_of_mem _ (inv.asker _ old)
  · rcases mem_cons.mp there with rfl | old
    · exact .inl ⟨error, rfl⟩
    · exact inv.content _ old

theorem chosen_registered (sendOk : Bool) (info : ServerInfo) (chosen : choseForwardServer s sendOk = some info) :
    forwardsock s ∈ mapKeys s.mapForwardInfo := by
  cases most : fewest s.mapTicketInfo with
  | none => simp [choseForwardServer, most] at chosen
  | some pair =>
    obtain ⟨fd, tickets⟩ := pair
    have named : forwardsock s = fd := by simp only [forwardsock, most]
    rw [named]
    cases known : s.mapForwardInfo.lookup fd with
    | none => simp [choseForwardServer, most, known] at chosen
    | some entry =>
      obtain ⟨before, after, shape, _⟩ := lookup_eq_some_iff.mp known
      have listed : (fd, entry) ∈ s.mapForwardInfo := by
        rw [shape]
        exact mem_append_right _ mem_cons_self
      exact mem_map_of_mem (f := Prod.fst) listed

theorem inv_park (d : Desk) (inv : DeskInv d) (server : Server) (c : Chosen) (number : c.request = d.asked.length)
    (new : c.ticket ∉ d.server.mapPeerInfo.map Prod.fst) (registered : c.fd ∈ mapKeys d.server.mapForwardInfo)
    (peers : server.mapPeerInfo = (c.ticket, c.peer) :: d.server.mapPeerInfo) (keys : server.mapForwardInfo = d.server.mapForwardInfo)
    (free : server.mutexTicket = d.server.mutexTicket) : DeskInv { noted (park d c) c.phone with server := server } := by
  have fresh := number_fresh d inv
  rw [← number] at fresh
  have parked : (park d c).parked = c :: d.parked := if_neg new
  have tickets : d.server.mapPeerInfo.map Prod.fst = d.parked.map Chosen.ticket := by
    rw [inv.peers, map_map]
    rfl
  have all : ({ noted (park d c) c.phone with server := server } : Desk).parked = c :: d.parked := parked
  refine ⟨?_, ?_, ?_, ?_, ?_, numbers_received d inv _, ?_, ?_, fun answer there => ?_, fun answer there => ?_, free.trans inv.free⟩
  · rw [all, map_cons, ← inv.peers]
    exact peers
  · rw [all]
    exact nodup_cons.mpr ⟨tickets ▸ new, inv.tickets⟩
  · rw [all]
    exact forall_mem_cons.mpr ⟨mem_cons_self, fun other there => mem_cons_of_mem _ (inv.owed _ there)⟩
  · rw [all]
    rw [keys]
    exact forall_mem_cons.mpr ⟨registered, inv.registered⟩
  · rw [all]
    refine forall_mem_cons.mpr ⟨⟨mem_cons_self, ?_⟩, fun other there => ?_⟩
    · rw [number]
      exact mem_cons_self
    · exact ⟨mem_cons_of_mem _ (inv.recorded _ there).1, mem_cons_of_mem _ (inv.recorded _ there).2⟩
  · rw [all, map_cons]
    intro asked there
    rcases mem_cons.mp there with rfl | old
    · rw [number]
      exact mem_append_right _ mem_cons_self
    · exact (mem_append.mp (inv.accounted _ old)).elim (mem_append_left _)
        fun waits => mem_append_right _ (mem_cons_of_mem _ waits)
  · rw [all, map_cons]
    exact (nodup_middle).mpr (nodup_cons.mpr ⟨fresh, inv.apart⟩)
  · exact mem_cons_of_mem _ (inv.asker _ there)
  · rcases inv.content _ there with error | ⟨chosen, old, same⟩
    · exact .inl error
    · exact .inr ⟨chosen, mem_cons_of_mem _ old, same⟩

theorem parked_split (c : Chosen) (parked : List Chosen) (there : c ∈ parked) (tickets : (parked.map Chosen.ticket).Nodup) :
    parked.Perm (c :: parked.filter fun other => other.ticket ≠ c.ticket) := by
  induction parked with
  | nil => exact nomatch there
  | cons head parked ih =>
    obtain ⟨fresh, tickets⟩ := nodup_cons.mp tickets
    rcases mem_cons.mp there with rfl | there
    · have all : parked.filter (fun other => other.ticket ≠ c.ticket) = parked :=
        filter_eq_self.mpr fun other listed => decide_eq_true fun same => fresh (mem_map.mpr ⟨other, listed, same⟩)
      rw [filter_cons_of_neg (by simp), all]
    · have apart : head.ticket ≠ c.ticket := fun same => fresh (mem_map.mpr ⟨c, there, same.symm⟩)
      rw [filter_cons_of_pos (by simpa using apart)]
      exact ((ih there tickets).cons head).trans (Perm.swap c head _)

theorem parked_lookup (c : Chosen) (parked : List Chosen) (there : c ∈ parked) (tickets : (parked.map Chosen.ticket).Nodup) :
    (parked.map fun c => (c.ticket, c.peer)).lookup c.ticket = some c.peer ∧ (parked.find? fun other => other.ticket = c.ticket) = some c := by
  induction parked with
  | nil => exact nomatch there
  | cons head parked ih =>
    obtain ⟨fresh, tickets⟩ := nodup_cons.mp tickets
    rcases mem_cons.mp there with rfl | there
    · exact ⟨by simp, find?_cons_of_pos (by simp)⟩
    · have apart : head.ticket ≠ c.ticket := fun same => fresh (mem_map.mpr ⟨c, there, same.symm⟩)
      obtain ⟨found, first⟩ := ih there tickets
      refine ⟨?_, (find?_cons_of_neg (by simpa using apart)).trans first⟩
      rw [map_cons, lookup_cons, show (c.ticket == head.ticket) = false from beq_eq_false_iff_ne.mpr apart.symm]
      exact found

theorem map_filter_peers (ticket : Ticket) (parked : List Chosen) :
    (parked.map fun c => (c.ticket, c.peer)).filter (fun peer => peer.1 ≠ ticket) =
      (parked.filter fun c => c.ticket ≠ ticket).map fun c => (c.ticket, c.peer) := by
  rw [filter_map]
  rfl

theorem inv_hear (d : Desk) (inv : DeskInv d) (server : Server) (fd code : Nat) (ticket : Ticket)
    (own : ∀ c ∈ d.parked, c.ticket = ticket → code = 0 ∧ c.fd = fd)
    (peers : server.mapPeerInfo = d.server.mapPeerInfo.filter fun peer => peer.1 ≠ ticket)
    (keys : server.mapForwardInfo = d.server.mapForwardInfo) (free : server.mutexTicket = d.server.mutexTicket) :
    DeskInv { hear d fd code ticket with server := server } := by
  have less : ∀ c ∈ d.parked.filter (fun c => c.ticket ≠ ticket), c ∈ d.parked ∧ c.ticket ≠ ticket := fun c there => by simpa using there
  have confirmed : ∀ owes ∈ d.confirmed, owes ∈ (hear d fd code ticket).confirmed := by
    intro owes there
    show owes ∈ if code = 0 then (fd, ticket) :: d.confirmed else d.confirmed
    split
    · exact mem_cons_of_mem _ there
    · exact there
  have still : ∀ answer ∈ d.answers, (answer.info.cerror ≠ 0 ∧ answer.pc = none) ∨
      ∃ c ∈ d.chosen, c.request = answer.request ∧ c.phone = answer.phone ∧ answer.pc = some c.pc ∧
        answer.info = ⟨some c.serverInfo, c.ticket, 0⟩ ∧ (c.fd, c.ticket) ∈ (hear d fd code ticket).confirmed := by
    intro answer there
    rcases inv.content _ there with error | ⟨c, chosen, request, phone, pc, info, heard⟩
    · exact .inl error
    · exact .inr ⟨c, chosen, request, phone, pc, info, confirmed _ heard⟩
  -- What does not concern the answers.
  have rest : ∀ answers, ((answers.map Answer.request ++ (d.parked.filter fun c => c.ticket ≠ ticket).map Chosen.request).Perm
        (d.answers.map Answer.request ++ d.parked.map Chosen.request)) →
      (∀ answer ∈ answers, ⟨answer.request, answer.phone⟩ ∈ d.asked) →
      (∀ answer ∈ answers, (answer.info.cerror ≠ 0 ∧ answer.pc = none) ∨
        ∃ c ∈ d.chosen, c.request = answer.request ∧ c.phone = answer.phone ∧ answer.pc = some c.pc ∧
          answer.info = ⟨some c.serverInfo, c.ticket, 0⟩ ∧ (c.fd, c.ticket) ∈ (hear d fd code ticket).confirmed) →
      DeskInv { hear d fd code ticket with server := server, answers := answers } := by
    intro answers same asker content
    refine ⟨?_, inv.tickets.sublist ((filter_sublist).map _), fun c there => ?_, fun c there => ?_, fun c there => inv.recorded c (less c there).1,
      inv.numbers, fun asked there => same.mem_iff.mpr (inv.accounted _ there), same.nodup_iff.mpr inv.apart, asker, content, free.trans inv.free⟩
    · refine peers.trans ?_
      rw [inv.peers, map_filter_peers]
      rfl
    · obtain ⟨waits, other⟩ := less c there
      exact mem_filter.mpr ⟨inv.owed c waits, decide_eq_true fun pair => other (Prod.mk.inj pair).2⟩
    · rw [keys]
      exact inv.registered c (less c there).1
  by_cases waits : ∃ c ∈ d.parked, c.ticket = ticket
  · obtain ⟨c, there, rfl⟩ := waits
    obtain ⟨rfl, rfl⟩ := own c there rfl
    obtain ⟨found, first⟩ := parked_lookup c _ there inv.tickets
    have answers : (hear d c.fd 0 c.ticket).answers = ⟨c.request, c.phone, some c.pc, ⟨some c.serverInfo, c.ticket, 0⟩⟩ :: d.answers := by
      rw [hear, inv.peers, found, first]
      rfl
    rw [show ({ hear d c.fd 0 _ with server := server } : Desk) =
      { hear d c.fd 0 _ with server := server, answers := (hear d c.fd 0 c.ticket).answers } from rfl, answers]
    have recorded := inv.recorded c there
    refine rest _ ?_ (forall_mem_cons.mpr ⟨recorded.2, inv.asker⟩) (forall_mem_cons.mpr ⟨.inr ?_, still⟩)
    · have split := (parked_split c _ there inv.tickets).map Chosen.request
      exact (perm_middle).symm.trans (split.symm.append_left _)
    · exact ⟨c, recorded.1, rfl, rfl, rfl, rfl, mem_cons_self⟩
  · have absent : ∀ c ∈ d.parked, c.ticket ≠ ticket := fun c there same => waits ⟨c, there, same⟩
    have missed : (d.parked.find? fun c => c.ticket = ticket) = none :=
      find?_eq_none.mpr fun c there found => absent c there (of_decide_eq_true found)
    have answers : (hear d fd code ticket).answers = d.answers := by
      rw [hear, missed]
      cases d.server.mapPeerInfo.lookup _ <;> rfl
    rw [show ({ hear d fd code _ with server := server } : Desk) =
      { hear d fd code _ with server := server, answers := (hear d fd code ticket).answers } from rfl, answers]
    refine rest _ ?_ inv.asker still
    rw [filter_eq_self.mpr fun c there => decide_eq_true (absent c there)]

theorem tcp_cases (fd : Nat) (mesg : TcpMesg) (masked : fd ∈ s.socketMask) :
    (Closes s fd mesg ∧ notified s fd mesg = none ∧ processTcpMesg s fd mesg = dropForward s fd) ∨
    (∃ code ticket, notified s fd mesg = some (code, ticket) ∧ processTcpMesg s fd mesg = notifyTicket s fd code ticket) ∨
    (notified s fd mesg = none ∧ (processTcpMesg s fd mesg).mapPeerInfo = s.mapPeerInfo ∧
      (∀ other ∈ mapKeys s.mapForwardInfo, other ∈ mapKeys (processTcpMesg s fd mesg).mapForwardInfo) ∧
      (processTcpMesg s fd mesg).mutexTicket = s.mutexTicket) := by
  rw [processTcpMesg, notified]
  by_cases head : mesg.head = .eof
  · rw [if_pos head, if_pos (.inr (.inl head))]
    exact .inl ⟨⟨masked, .inl head⟩, rfl, rfl⟩
  rw [if_neg head]
  by_cases body : mesg.some ∧ mesg.body = .eof
  · rw [if_pos body, if_pos (.inr (.inr (.inl body)))]
    exact .inl ⟨⟨masked, .inr body⟩, rfl, rfl⟩
  rw [if_neg body]
  right
  by_cases beat : mesg.opCode = fwdToCmHeartbeat
  · rw [if_pos beat, if_pos (.inr (.inr (.inr (.inl (by rw [beat]; decide)))))]
    exact .inr ⟨rfl, rfl, fun other there => by rw [heartbeat, update_keys]; exact there, rfl⟩
  rw [if_neg beat]
  by_cases notify : mesg.opCode = notifyTicketInfo
  · cases some_ : mesg.some with
    | false =>
      rw [if_pos (.inr (.inr (.inr (.inr Bool.false_ne_true))))]
      exact .inr ⟨rfl, rfl, fun _ => id, rfl⟩
    | true =>
      rw [some_] at body
      rw [if_neg (by rintro (unmasked | first | second | other | short)
                     exacts [unmasked masked, head first, body second, other notify, short rfl])]
      cases mesg.json with
      | none => exact .inr ⟨rfl, rfl, fun _ => id, rfl⟩
      | some json =>
        rw [notify]
        exact .inl ⟨mesg.rtnCode, json.ticket, rfl, rfl⟩
  · rw [if_pos (.inr (.inr (.inr (.inl notify))))]
    refine .inr ⟨rfl, ?_⟩
    split
    · split
      · exact ⟨rfl, fun other there => (put_key_mem fd _ _ _).mpr (.inr there), rfl⟩
      split
      · exact ⟨rfl, fun _ => id, rfl⟩
      · exact ⟨rfl, fun _ => id, rfl⟩
    · exact ⟨rfl, fun _ => id, rfl⟩

theorem notify_frame (fd code : Nat) (ticket : Ticket) :
    (notifyTicket s fd code ticket).mapPeerInfo = s.mapPeerInfo.filter (fun peer => peer.1 ≠ ticket) ∧
      (notifyTicket s fd code ticket).mapForwardInfo = s.mapForwardInfo ∧ (notifyTicket s fd code ticket).mutexTicket = s.mutexTicket := by
  rw [notifyTicket]
  split <;> exact ⟨rfl, rfl, rfl⟩

theorem drop_frame (fd : Nat) : (dropForward s fd).mapPeerInfo = s.mapPeerInfo ∧ (dropForward s fd).mutexTicket = s.mutexTicket ∧
    ∀ other ∈ mapKeys s.mapForwardInfo, other ≠ fd → other ∈ mapKeys (dropForward s fd).mapForwardInfo := by
  refine ⟨rfl, rfl, fun other there differs => ?_⟩
  rw [show mapKeys (dropForward s fd).mapForwardInfo = _ from erase_keys fd _]
  exact mem_filter.mpr ⟨there, decide_eq_true differs⟩

theorem drops_frame (fds : List Nat) (s : Server) : (fds.foldl dropForward s).mapPeerInfo = s.mapPeerInfo ∧
    (fds.foldl dropForward s).mutexTicket = s.mutexTicket ∧
    ∀ other ∈ mapKeys s.mapForwardInfo, other ∉ fds → other ∈ mapKeys (fds.foldl dropForward s).mapForwardInfo := by
  induction fds generalizing s with
  | nil => exact ⟨rfl, rfl, fun _ there _ => there⟩
  | cons fd fds ih =>
    obtain ⟨peers, free, keys⟩ := ih _
    refine ⟨peers, free, fun other there absent => ?_⟩
    exact keys _ ((drop_frame s fd).2.2 _ there (ne_of_not_mem_cons absent)) (not_mem_of_not_mem_cons absent)

theorem desk_step (d : Desk) (step : SnStep) (inv : DeskInv d) (answers : ChosenAnswers d step) : DeskInv (deskStep d step) := by
  rw [deskStep]
  by_cases stuck : d.server.stuck = true
  · rw [if_pos stuck]
    exact inv
  have goes : d.server.stuck = false := Bool.eq_false_iff.mpr stuck
  rw [if_neg stuck]
  cases step with
  | request peer phone draws sendOk =>
    cases peer with
    | none =>
      rw [snStep.eq_def, if_neg stuck]
      exact inv_refuse d inv _ _ (by decide)
    | some pc =>
      rw [snStep.eq_def, if_neg stuck]
      dsimp only
      rw [request_cases _ pc _ _ _ inv.free goes, deskWrites, deskRequest]
      cases chosen : choseForwardServer _ _ with
      | none =>
        refine inv_refuse d inv _ _ ?_
        rw [refusal]
        split <;> exact Nat.one_ne_zero
      | some info =>
        have new := answers (by rw [chosen]; rfl)
        exact inv_park d inv _ _ rfl new
          (chosen_registered _ _ info chosen) (if_neg new) rfl rfl
  | otherUdp =>
    rw [snStep.eq_def, if_neg stuck]
    exact inv_server d inv _ rfl inv.registered rfl
  | accept fd =>
    rw [snStep.eq_def, if_neg stuck]
    dsimp only
    split
    · exact inv_server d inv _ rfl inv.registered rfl
    · exact inv_server d inv _ rfl inv.registered rfl
  | tcp fd mesg =>
    rw [snStep.eq_def, if_neg stuck]
    dsimp only
    by_cases masked : fd ∈ d.server.socketMask
    · rw [if_pos masked]
      rcases tcp_cases _ fd mesg masked with ⟨closes, quiet, dropped⟩ | ⟨code, ticket, word, told⟩ | ⟨quiet, peers, keys, free⟩
      · rw [deskWrites, quiet]
        rw [dropped]
        exact inv_server d inv _ rfl
          (fun c there => (drop_frame _ fd).2.2 c.fd (inv.registered c there) (answers.1 closes c there)) rfl
      · rw [deskWrites, word]
        rw [told]
        obtain ⟨peers, keys, free⟩ := notify_frame _ fd code _
        exact inv_hear d inv _ fd code _ (answers.2 code _ word) peers keys free
      · rw [deskWrites, quiet]
        exact inv_server d inv _ peers (fun c there => keys c.fd (inv.registered c there)) free
    · have quiet : notified _ fd mesg = none := if_pos (.inl masked)
      rw [deskWrites, quiet, if_neg masked]
      exact inv_server d inv _ rfl inv.registered rfl
  | done now =>
    rw [snStep.eq_def, if_neg stuck]
    dsimp only
    rw [clearTimeoutFwdServer]
    split
    · exact inv_server d inv _ rfl inv.registered rfl
    split
    · exact inv_server d inv _ rfl inv.registered rfl
    · rename_i late _
      obtain ⟨peers, free, keys⟩ := drops_frame _
        _
      exact inv_server d inv _ peers
        (fun c there => keys c.fd (inv.registered c there) (answers (Nat.le_of_not_lt late) c there)) free

theorem answered_once (steps : List SnStep) (answers : AllSteps deskStep ChosenAnswers deskInit steps) :
    AnsweredOnce (run deskStep deskInit steps) :=
  inv_answered _ (run_keeps _ _ _ _ _
    ⟨rfl, nodup_nil, nofun, nofun, nofun, nofun, nofun, nodup_nil, nofun, nofun, rfl⟩ desk_step answers)

def askedServer (rtnCode : Nat) : List SnStep := [.accept 7, .tcp 7 ⟨.ok, registForwardInfo, 0, true, .ok, some ⟨1, 2, []⟩, 1⟩,
  .request (some 3) 4 nineDraws true, .tcp 7 ⟨.ok, notifyTicketInfo, rtnCode, true, .ok, some ⟨0, 0, nineDraws.ticket⟩, 3⟩]

theorem answered_once_sample : AnsweredOnce (run deskStep deskInit (askedServer 0)) := by
  refine answered_once _ ⟨trivial, ⟨fun _ => nofun, fun _ _ _ => nofun⟩, fun _ => not_mem_nil, ⟨?_, ?_⟩, trivial⟩
  · rintro ⟨_, closed | ⟨_, closed⟩⟩ <;> exact nomatch closed
  · intro code ticket word c there _
    obtain ⟨rfl, _⟩ := Prod.mk.inj (Option.some.inj word)
    rw [mem_singleton.mp there]
    exact ⟨rfl, rfl⟩

theorem refused_unanswered : ¬ AnsweredOnce (run deskStep deskInit (askedServer 1)) := by
  intro once
  have owed : (run deskStep deskInit (askedServer 1)).owed = [] := by decide +kernel
  have answered := once.settled (by rw [owed]; exact nofun) _ mem_cons_self
  exact absurd answered (by decide +kernel)

end Codec.Sn
