import Codec.Sn.Server

set_option autoImplicit false

namespace Codec.Sn

open Codec.Lib

section Map

variable {ν μ : Type}

variable (key : Nat) (value : ν) (entries : List (Nat × ν))

theorem insert_keys (other : μ) (entries : List (Nat × ν)) (others : List (Nat × μ))
    (same : mapKeys entries = mapKeys others) : mapKeys (mapInsert key value entries) = mapKeys (mapInsert key other others) := by
  induction entries generalizing others with
  | nil =>
    cases others with
    | nil => rfl
    | cons first rest => exact nomatch same
  | cons entry rest ih =>
    cases others with
    | nil => exact nomatch same
    | cons first more =>
      obtain ⟨head, tail⟩ := List.cons.inj same
      rw [mapInsert, mapInsert, head]
      split
      · exact congrArg _ same
      · exact congrArg₂ _ head (ih more tail)

theorem put_keys (other : μ) (entries : List (Nat × ν)) (others : List (Nat × μ))
    (same : mapKeys entries = mapKeys others) : mapKeys (mapPut key value entries) = mapKeys (mapPut key other others) := by
  rw [mapPut, mapPut, same]
  split
  · exact same
  · exact insert_keys key _ _ _ _ same

theorem insert_mem (entry : Nat × ν) : entry ∈ mapInsert key value entries ↔ entry = (key, value) ∨ entry ∈ entries := by
  induction entries with
  | nil => rw [mapInsert, List.mem_singleton, or_iff_left List.not_mem_nil]
  | cons first rest ih =>
    rw [mapInsert]
    split
    · exact List.mem_cons
    · rw [List.mem_cons, ih, List.mem_cons, or_left_comm]

theorem put_mem (entry : Nat × ν) (there : entry ∈ mapPut key value entries) :
    (key ∉ mapKeys entries ∧ entry = (key, value)) ∨ entry ∈ entries := by
  rw [mapPut] at there
  split at there
  · exact .inr there
  · rename_i absent
    exact ((insert_mem key _ _ _).mp there).imp_left fun new => ⟨absent, new⟩

theorem put_key_mem (wanted : Nat) : wanted ∈ mapKeys (mapPut key value entries) ↔ wanted = key ∨ wanted ∈ mapKeys entries := by
  rw [mapPut]
  split
  · rename_i present
    exact (or_iff_right_of_imp fun same => same ▸ present).symm
  · simp [mapKeys, insert_mem, or_and_right, exists_or, eq_comm (a := wanted)]

theorem update_keys (change : ν → ν) (entries : List (Nat × ν)) : mapKeys (mapUpdate key change entries) = mapKeys entries := by
  rw [mapKeys, mapUpdate, List.map_map]
  refine List.map_congr_left fun entry _ => ?_
  rw [Function.comp_apply]
  split <;> rfl

theorem erase_keys : mapKeys (mapErase key entries) = (mapKeys entries).filter (· ≠ key) := by
  rw [mapKeys, mapErase, mapKeys, List.filter_map]
  rfl

end Map

structure TablesOk (s : Server) : Prop where
  keys : mapKeys s.mapForwardInfo = mapKeys s.mapTicketInfo
  mask : ∀ fd ∈ mapKeys s.mapForwardInfo, fd ∈ s.socketMask ∧ fd ∈ s.opened
  silent : ∀ entry ∈ s.mapForwardInfo, (s.clock : Int) - entry.2.regTm ≤ fwdTimeout
  free : s.mutexForwardInfo = false ∧ s.mutexTicket = false
  goes : s.stuck = false

variable (s : Server)

theorem generate_same (draws : Draws) (free : s.mutexTicket = false) (goes : s.stuck = false) :
    generateTicket s draws = (s, draws.ticket) := by
  have locked : lockTicket s = { s with mutexTicket := true } := if_neg (by rw [free]; exact Bool.false_ne_true)
  have unlocks (tickets : List _) (held : Bool) : ∃ held_, tickets.foldl
      (fun s ticket => if ticket = draws.ticket then { s with mutexTicket := false } else s) { s with mutexTicket := held } =
        { s with mutexTicket := held_ } := by
    induction tickets generalizing held with
    | nil => exact ⟨held, rfl⟩
    | cons ticket rest ih =>
      rw [List.foldl_cons]
      split
      · exact ih _
      · exact ih held
  obtain ⟨held, all⟩ := unlocks _ true
  rw [generateTicket, locked]
  rw [if_neg (by rw [goes]; exact Bool.false_ne_true), all]
  rw [← free]

theorem request_cases (pcSock phoneSock : Nat) (draws : Draws) (sendOk : Bool) (free : s.mutexTicket = false) (goes : s.stuck = false) :
    requestForwardInfo s pcSock phoneSock draws sendOk = match choseForwardServer s sendOk with
      | some serverInfo =>
        { s with
          mapPeerInfo := if draws.ticket ∈ s.mapPeerInfo.map Prod.fst then s.mapPeerInfo
            else (draws.ticket, ⟨pcSock, phoneSock, serverInfo⟩) :: s.mapPeerInfo
          doubled := if draws.ticket ∈ outstanding s then draws.ticket :: s.doubled else s.doubled }
      | none => s := by
  rw [requestForwardInfo, generate_same s _ free goes]
  refine (if_neg (by rw [goes]; exact Bool.false_ne_true)).trans ?_
  cases choseForwardServer s _ <;> rfl

theorem drop_ok (ok : TablesOk s) (fd : Nat) : TablesOk (dropForward s fd) := by
  have gone (entries : List Nat) (other : Nat) (there : other ∈ entries.filter (· ≠ fd)) : other ∈ entries ∧ other ≠ fd := by
    simpa using there
  refine ⟨?_, fun other there => ?_, fun entry there => ok.silent _ (List.mem_of_mem_filter there), ok.free, ok.goes⟩
  · show mapKeys (mapErase fd _) = mapKeys (mapErase fd _)
    rw [erase_keys, erase_keys, ok.keys]
  · rw [show mapKeys (dropForward s fd).mapForwardInfo = _ from erase_keys fd _] at there
    obtain ⟨old, differs⟩ := gone _ _ there
    obtain ⟨mask, opened⟩ := ok.mask _ old
    exact ⟨(List.mem_erase_of_ne differs).mpr mask, (List.mem_erase_of_ne differs).mpr opened⟩

theorem regist_ok (ok : TablesOk s) (fd : Nat) (there : fd ∈ s.socketMask ∧ fd ∈ s.opened) (json : MesgJson) (now : Nat)
    (early : s.clock < purgeRegistrationFrequency) : TablesOk (registForward s fd json now) := by
  refine ⟨put_keys fd _ _ _ _ ok.keys, fun other known => ?_, fun entry known => ?_, ok.free, ok.goes⟩
  · rcases (put_key_mem fd _ _ _).mp known with rfl | old
    · exact there
    · exact ok.mask _ old
  · rcases put_mem fd _ _ _ known with ⟨_, rfl⟩ | old
    · have thirty : purgeRegistrationFrequency = 30 := rfl
      have minutes : fwdTimeout = 180 := rfl
      show (s.clock : Int) - now ≤ fwdTimeout
      omega
    · exact ok.silent _ old

theorem heartbeat_ok (ok : TablesOk s) (fd now : Nat) (early : s.clock < purgeRegistrationFrequency) : TablesOk (heartbeat s fd now) := by
  have same : mapKeys (heartbeat s fd now).mapForwardInfo = mapKeys _ :=
    update_keys fd (fun info : ForwardInfo => { info with regTm := now }) _
  refine ⟨same.trans ok.keys, fun other known => ?_, fun entry known => ?_, ok.free, ok.goes⟩
  · rw [same] at known
    exact ok.mask _ known
  · obtain ⟨old, there, rfl⟩ := List.mem_map.mp known
    split
    · have thirty : purgeRegistrationFrequency = 30 := rfl
      have minutes : fwdTimeout = 180 := rfl
      show (s.clock : Int) - now ≤ fwdTimeout
      omega
    · exact ok.silent old there

theorem tickets_ok (s next : Server) (ok : TablesOk s) (forward : next.mapForwardInfo = s.mapForwardInfo)
    (tickets : mapKeys next.mapTicketInfo = mapKeys s.mapTicketInfo) (mask : next.socketMask = s.socketMask) (opened : next.opened = s.opened)
    (free : next.mutexForwardInfo = s.mutexForwardInfo ∧ next.mutexTicket = s.mutexTicket) (goes : next.stuck = s.stuck)
    (clock : next.clock = s.clock) : TablesOk next := by
  refine ⟨?_, ?_, ?_, ?_, goes.trans ok.goes⟩
  · rw [forward, tickets]
    exact ok.keys
  · rw [forward, mask, opened]
    exact ok.mask
  · rw [forward, clock]
    exact ok.silent
  · rw [free.1, free.2]
    exact ok.free

theorem notify_ok (ok : TablesOk s) (fd rtnCode : Nat) (ticket : Ticket) : TablesOk (notifyTicket s fd rtnCode ticket) := by
  rw [notifyTicket]
  generalize decide (ticket ∈ s.mapPeerInfo.map _) = waits
  by_cases answered : rtnCode = 0 ∧ waits = true
  · rw [if_pos answered]
    exact tickets_ok s _ ok rfl (update_keys fd (fun tickets : List _ => tickets ++ [ticket]) _) rfl rfl ⟨rfl, rfl⟩ rfl rfl
  · rw [if_neg answered]
    exact tickets_ok s _ ok rfl rfl rfl rfl ⟨rfl, rfl⟩ rfl rfl

theorem tcp_ok (ok : TablesOk s) (fd : Nat) (there : fd ∈ s.socketMask ∧ fd ∈ s.opened) (mesg : TcpMesg)
    (early : s.clock < purgeRegistrationFrequency) : TablesOk (processTcpMesg s fd mesg) := by
  rw [processTcpMesg]
  split
  · exact drop_ok s ok fd
  · split
    · exact drop_ok s ok fd
    · split
      · exact heartbeat_ok s ok fd _ early
      · split
        · rename_i json _ _
          split
          · exact regist_ok s ok fd there json _ early
          · split
            · exact tickets_ok s _ ok rfl (update_keys fd _ _)
                rfl rfl ⟨rfl, rfl⟩ rfl rfl
            · split
              · exact notify_ok s ok fd _ _
              · exact ok
        · exact ok

structure TablesInv (s : Server) : Prop extends TablesOk s where
  early : s.clock < purgeRegistrationFrequency
  both : s.socketMask = s.opened

theorem drop_both (both : s.socketMask = s.opened) (fd : Nat) : (dropForward s fd).socketMask = (dropForward s fd).opened :=
  congrArg (List.erase · fd) both

theorem tcp_frame (fd : Nat) (mesg : TcpMesg) : (processTcpMesg s fd mesg).clock = s.clock ∧
    (s.socketMask = s.opened → (processTcpMesg s fd mesg).socketMask = (processTcpMesg s fd mesg).opened) := by
  rw [processTcpMesg]
  repeat' split
  all_goals first
    | exact ⟨rfl, fun both => drop_both s both fd⟩
    | exact ⟨rfl, id⟩
    | (rw [notifyTicket]; split <;> exact ⟨rfl, id⟩)

theorem request_ok (inv : TablesInv s) (pcSock phoneSock : Nat) (draws : Draws) (sendOk : Bool) :
    TablesInv (requestForwardInfo s pcSock phoneSock draws sendOk) := by
  rw [request_cases s _ _ _ _ inv.free.2 inv.goes]
  split
  · exact ⟨tickets_ok s _ inv.toTablesOk rfl rfl rfl rfl ⟨rfl, rfl⟩ rfl rfl, inv.early, inv.both⟩
  · exact inv

theorem tables_step (inv : TablesInv s) (step : SnStep) (early : ∀ now, step = .done now → now < purgeRegistrationFrequency) :
    TablesInv (snStep s step) := by
  rw [snStep.eq_def, if_neg (by rw [inv.goes]; exact Bool.false_ne_true)]
  cases step with
  | request peer phoneSock draws sendOk =>
    cases peer with
    | none => exact inv
    | some pcSock => exact request_ok s inv _ _ _ _
  | otherUdp => exact inv
  | accept fd =>
    dsimp only
    split
    · exact inv
    · refine ⟨⟨inv.keys, fun other known => ?_, inv.silent, inv.free, inv.goes⟩, inv.early, congrArg _ inv.both⟩
      exact (inv.mask _ known).imp (List.mem_cons_of_mem fd) (List.mem_cons_of_mem fd)
  | tcp fd mesg =>
    dsimp only
    split
    · rename_i masked
      obtain ⟨clock, both⟩ := tcp_frame s fd mesg
      refine ⟨tcp_ok s inv.toTablesOk fd ⟨masked, inv.both ▸ masked⟩ mesg inv.early, ?_, both inv.both⟩
      rw [clock]
      exact inv.early
    · exact inv
  | done now =>
    have young := early now rfl
    dsimp only
    rw [clearTimeoutFwdServer, if_pos young]
    refine ⟨⟨inv.keys, inv.mask, fun entry there => ?_, inv.free, inv.goes⟩, young, inv.both⟩
    have thirty : purgeRegistrationFrequency = 30 := rfl
    have minutes : fwdTimeout = 180 := rfl
    show (now : Int) - entry.2.regTm ≤ fwdTimeout
    omega

theorem tables_hold (steps : List SnStep)
    (early : AllSteps snStep (fun _ step => ∀ now, step = .done now → now < purgeRegistrationFrequency) snInit steps) :
    TablesOk (run snStep snInit steps) := by
  have initial : TablesInv snInit := ⟨⟨rfl, nofun, nofun, ⟨rfl, rfl⟩, rfl⟩, by decide, rfl⟩
  exact (run_keeps _ _ _ _ _ initial (fun s step inv allowed => tables_step s inv step allowed) early).toTablesOk

theorem tables_hold_sample : TablesOk (run snStep snInit [.accept 7, .tcp 7 ⟨.ok, registForwardInfo, 0, true, .ok, some ⟨1, 2, []⟩, 5⟩, .done 6]) :=
  tables_hold _
    ⟨nofun, nofun, fun _ same => by rw [← SnStep.done.inj same]; decide, trivial⟩

theorem mutex_kept : ¬ TablesOk (run snStep snInit [.done 1000]) ∧ (run snStep snInit [.done 1000, .done 1001]).stuck = true := by
  refine ⟨fun ok => ?_, rfl⟩
  have held : (run snStep snInit [.done 1000]).mutexForwardInfo = true := rfl
  exact nomatch held.symm.trans ok.free.1

end Codec.Sn
