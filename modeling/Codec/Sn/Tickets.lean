import Mathlib.Data.List.Nodup
import Codec.Sn.Tables

set_option autoImplicit false

namespace Codec.Sn

open Codec.Lib

variable (s : Server)

def held (fd : Nat) (ticket : Ticket) : List Said → Prop
  | [] => False
  | .confirmed other one :: rest => (other = fd ∧ one = ticket) ∨ held fd ticket rest
  | .released other one :: rest => ¬ (other = fd ∧ one = ticket) ∧ held fd ticket rest
  | .gone other :: rest => other ≠ fd ∧ held fd ticket rest

structure TicketsOnce (s : Server) : Prop where
  once : ∀ entry ∈ s.mapTicketInfo, entry.2.Nodup
  lists : ∀ entry ∈ s.mapTicketInfo, ∀ ticket, ticket ∈ entry.2 ↔ held entry.1 ticket s.said
  unique : s.doubled = []

structure TicketInv (s : Server) : Prop extends TicketsOnce s where
  apart : ∀ entry ∈ s.mapTicketInfo, ∀ ticket ∈ entry.2, ticket ∉ s.mapPeerInfo.map Prod.fst
  absent : ∀ fd, fd ∉ mapKeys s.mapTicketInfo → ∀ ticket, ¬ held fd ticket s.said
  free : s.mutexTicket = false

def FreshDraw : SnStep → Prop
  | .request (some _) _ draws sendOk => (choseForwardServer s sendOk).isSome → draws.ticket ∉ outstanding s
  | _ => True

theorem key_mem (entry : Nat × List Ticket) (there : entry ∈ s.mapTicketInfo) : entry.1 ∈ mapKeys s.mapTicketInfo :=
  List.mem_map_of_mem (f := Prod.fst) there

theorem ticket_inv_same (s next : Server) (inv : TicketInv s) (tickets : next.mapTicketInfo = s.mapTicketInfo)
    (peers : next.mapPeerInfo = s.mapPeerInfo) (said : next.said = s.said) (doubled : next.doubled = s.doubled)
    (free : next.mutexTicket = s.mutexTicket) : TicketInv next := by
  refine ⟨⟨?_, ?_, doubled.trans inv.unique⟩, ?_, ?_, free.trans inv.free⟩
  · rw [tickets]
    exact inv.once
  · rw [tickets, said]
    exact inv.lists
  · rw [tickets, peers]
    exact inv.apart
  · rw [tickets, said]
    exact inv.absent

theorem request_inv (inv : TicketInv s) (goes : s.stuck = false) (pcSock phoneSock : Nat) (draws : Draws) (sendOk : Bool)
    (fresh : (choseForwardServer s sendOk).isSome → draws.ticket ∉ outstanding s) :
    TicketInv (requestForwardInfo s pcSock phoneSock draws sendOk) := by
  rw [request_cases s _ _ _ _ inv.free goes]
  split
  · rename_i serverInfo chosen
    have new := fresh (by rw [chosen]; rfl)
    refine ⟨⟨inv.once, inv.lists, (if_neg new).trans inv.unique⟩, fun entry there ticket listed => ?_, inv.absent, inv.free⟩
    have old := inv.apart _ there _ listed
    split
    · exact old
    · rw [List.map_cons, List.mem_cons, not_or]
      refine ⟨fun same => new ?_, old⟩
      rw [← show ticket = draws.ticket from same]
      exact List.mem_append_right _ (List.mem_flatMap.mpr ⟨entry, there, listed⟩)
  · exact inv

theorem drop_inv (inv : TicketInv s) (fd : Nat) : TicketInv (dropForward s fd) := by
  have old (entry : Nat × List _) (there : entry ∈ mapErase fd s.mapTicketInfo) : entry ∈ s.mapTicketInfo ∧ entry.1 ≠ fd := by
    simpa [mapErase] using there
  refine ⟨⟨fun entry there => inv.once _ (old _ there).1, fun entry there ticket => ?_, inv.unique⟩,
    fun entry there => inv.apart _ (old _ there).1, fun other gone ticket => ?_, inv.free⟩
  · obtain ⟨before, differs⟩ := old _ there
    exact (inv.lists _ before _).trans (and_iff_right differs.symm).symm
  · rintro ⟨differs, holds⟩
    refine inv.absent _ (fun known => gone ?_) _ holds
    rw [show mapKeys (dropForward s fd).mapTicketInfo = _ from erase_keys fd _]
    simpa using ⟨known, differs.symm⟩

theorem regist_inv (inv : TicketInv s) (fd : Nat) (json : MesgJson) (now : Nat) : TicketInv (registForward s fd json now) := by
  refine ⟨⟨fun entry there => ?_, fun entry there ticket => ?_, inv.unique⟩, fun entry there ticket listed => ?_, fun other gone => ?_, inv.free⟩
  · rcases put_mem fd [] _ _ there with ⟨_, rfl⟩ | old
    · exact List.nodup_nil
    · exact inv.once _ old
  · rcases put_mem fd [] _ _ there with ⟨new, rfl⟩ | old
    · exact iff_of_false List.not_mem_nil (inv.absent fd new _)
    · exact inv.lists _ old _
  · rcases put_mem fd [] _ _ there with ⟨_, rfl⟩ | old
    · exact absurd listed List.not_mem_nil
    · exact inv.apart _ old _ listed
  · exact inv.absent _ fun known => gone ((put_key_mem fd [] _ _).mpr (.inr known))

theorem release_inv (inv : TicketInv s) (fd : Nat) (ticket : Ticket) : TicketInv (releaseTicket s fd ticket) := by
  have keys : mapKeys (releaseTicket s fd ticket).mapTicketInfo = mapKeys _ := update_keys fd _ _
  refine ⟨⟨fun entry there => ?_, fun entry there other => ?_, inv.unique⟩, fun entry there other listed => ?_, fun other gone one holds => ?_, inv.free⟩
  · obtain ⟨old, before, rfl⟩ := List.mem_map.mp there
    split
    · exact (inv.once old before).filter _
    · exact inv.once old before
  · obtain ⟨old, before, rfl⟩ := List.mem_map.mp there
    have lists := inv.lists old before other
    split
    · rename_i own
      show other ∈ old.2.filter _ ↔ ¬ (fd = old.1 ∧ ticket = other) ∧ held _ _ _
      rw [List.mem_filter, ← lists, own, and_comm, decide_eq_true_iff, eq_self, true_and, ne_comm]
    · rename_i else_
      show other ∈ old.2 ↔ ¬ (fd = old.1 ∧ ticket = other) ∧ held _ _ _
      rw [lists, and_iff_right fun same => else_ same.1.symm]
  · obtain ⟨old, before, rfl⟩ := List.mem_map.mp there
    refine inv.apart old before _ ?_
    split at listed
    · exact List.mem_of_mem_filter listed
    · exact listed
  · rw [keys] at gone
    exact inv.absent _ gone one holds.2

theorem notify_inv (inv : TicketInv s) (fd rtnCode : Nat) (ticket : Ticket) : TicketInv (notifyTicket s fd rtnCode ticket) := by
  have fewer (other : Ticket) (old : other ∉ s.mapPeerInfo.map Prod.fst) :
      other ∉ (s.mapPeerInfo.filter fun peer => peer.1 ≠ ticket).map Prod.fst := by
    intro there
    obtain ⟨peer, kept, same⟩ := List.mem_map.mp there
    exact old (List.mem_map.mpr ⟨peer, List.mem_of_mem_filter kept, same⟩)
  rw [notifyTicket]
  by_cases answered : rtnCode = 0 ∧ decide (ticket ∈ s.mapPeerInfo.map Prod.fst) = true
  · rw [if_pos answered]
    have waits : ticket ∈ s.mapPeerInfo.map _ := of_decide_eq_true answered.2
    have keys := update_keys fd (fun tickets : List _ => tickets ++ [ticket]) s.mapTicketInfo
    have other_word (connection : Nat) (differs : connection ≠ fd) (one : Ticket) :
        held connection one (if fd ∈ mapKeys s.mapTicketInfo then .confirmed fd ticket :: s.said else s.said) ↔ held connection one s.said := by
      split
      · exact or_iff_right fun same => differs same.1.symm
      · exact Iff.rfl
    refine ⟨⟨fun entry there => ?_, fun entry there other => ?_, inv.unique⟩, fun entry there other listed => ?_, fun other gone one holds => ?_, inv.free⟩
    · obtain ⟨old, before, rfl⟩ := List.mem_map.mp there
      split
      · have new : ticket ∉ old.2 := fun listed => inv.apart old before _ listed waits
        exact List.Nodup.append (inv.once old before) (List.nodup_singleton _) (List.disjoint_singleton.mpr new)
      · exact inv.once old before
    · obtain ⟨old, before, rfl⟩ := List.mem_map.mp there
      have lists := inv.lists old before other
      split
      · rename_i own
        have known : fd ∈ mapKeys _ := own ▸ key_mem s old before
        rw [if_pos known, List.mem_append, List.mem_singleton, lists, or_comm]
        exact or_congr_left ⟨fun same => ⟨own.symm, same.symm⟩, fun same => same.2.symm⟩
      · rename_i else_
        exact lists.trans (other_word _ else_ _).symm
    · obtain ⟨old, before, rfl⟩ := List.mem_map.mp there
      split at listed
      · rcases List.mem_append.mp listed with listed_ | last
        · exact fewer _ (inv.apart old before _ listed_)
        · rw [List.mem_singleton.mp last]
          simp
      · exact fewer _ (inv.apart old before _ listed)
    · rw [show mapKeys _ = _ from keys] at gone
      by_cases own : other = fd
      · rw [if_neg (own ▸ gone)] at holds
        exact inv.absent _ gone one holds
      · exact inv.absent _ gone one ((other_word _ own one).mp holds)
  · rw [if_neg answered]
    exact ⟨{ inv with }, fun entry there other listed => fewer _ (inv.apart _ there _ listed), inv.absent, inv.free⟩

theorem tcp_inv (inv : TicketInv s) (fd : Nat) (mesg : TcpMesg) : TicketInv (processTcpMesg s fd mesg) := by
  rw [processTcpMesg]
  split
  · exact drop_inv s inv fd
  · split
    · exact drop_inv s inv fd
    · split
      · exact ticket_inv_same s _ inv rfl rfl rfl rfl rfl
      · split
        · rename_i json _ _
          split
          · exact regist_inv s inv fd json _
          · split
            · exact release_inv s inv fd _
            · split
              · exact notify_inv s inv fd _ _
              · exact inv
        · exact inv

theorem done_inv (inv : TicketInv s) (now : Nat) : TicketInv (clearTimeoutFwdServer s now) := by
  rw [clearTimeoutFwdServer]
  split
  · exact inv
  · split
    · exact ticket_inv_same s _ inv rfl rfl rfl rfl rfl
    · have all (fds : List Nat) (s : Server) (inv : TicketInv s) : TicketInv (fds.foldl dropForward s) := by
        induction fds generalizing s with
        | nil => exact inv
        | cons fd rest ih => exact ih _ (drop_inv s inv fd)
      exact all _ _ (ticket_inv_same s _ inv rfl rfl rfl rfl rfl)

theorem ticket_step (inv : TicketInv s) (step : SnStep) (fresh : FreshDraw s step) : TicketInv (snStep s step) := by
  rw [snStep.eq_def]
  by_cases stuck : s.stuck = true
  · rw [if_pos stuck]
    exact inv
  · rw [if_neg stuck]
    cases step with
    | request peer phoneSock draws sendOk =>
      cases peer with
      | none => exact inv
      | some pcSock => exact request_inv s inv (eq_false_of_ne_true stuck) _ _ _ _ fresh
    | otherUdp => exact inv
    | accept fd =>
      dsimp only
      split
      · exact inv
      · exact ticket_inv_same s _ inv rfl rfl rfl rfl rfl
    | tcp fd mesg =>
      dsimp only
      split
      · exact tcp_inv s inv fd mesg
      · exact inv
    | done now => exact done_inv { s with clock := now } (ticket_inv_same s _ inv rfl rfl rfl rfl rfl) now

theorem tickets_once (steps : List SnStep) (fresh : AllSteps snStep FreshDraw snInit steps) : TicketsOnce (run snStep snInit steps) := by
  have initial : TicketInv snInit := ⟨⟨nofun, nofun, rfl⟩, nofun, fun _ _ _ => id, rfl⟩
  exact (run_keeps _ _ _ _ _ initial (fun s step inv allowed => ticket_step s inv step allowed) fresh).toTicketsOnce

def nineDraws : Draws := ⟨(List.replicate 16 [0, 9]).flatten, rfl⟩

def oneTicket : List SnStep := [.otherUdp, .accept 7, .done 1, .tcp 7 ⟨.ok, registForwardInfo, 0, true, .ok, some ⟨1, 2, []⟩, 1⟩, .done 2,
  .request (some 3) 4 nineDraws true, .done 3, .tcp 7 ⟨.ok, notifyTicketInfo, 0, true, .ok, some ⟨0, 0, nineDraws.ticket⟩, 3⟩, .done 4]

theorem tickets_once_sample : TicketsOnce (run snStep snInit oneTicket) :=
  tickets_once _ ⟨trivial, trivial, trivial, trivial, trivial, fun _ => List.not_mem_nil, trivial, trivial, trivial, trivial⟩

-- The same draws once more: the ticket is listed, and given out all the same.
theorem ticket_doubled : ¬ TicketsOnce (run snStep snInit (oneTicket ++ [.request (some 5) 6 nineDraws true])) := by
  intro once
  have doubled : (run snStep snInit (oneTicket ++ [.request (some 5) 6 nineDraws true])).doubled = [nineDraws.ticket] := by decide +kernel
  exact nomatch doubled.symm.trans once.unique

end Codec.Sn
