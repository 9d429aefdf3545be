import Codec.Tunnel.Machine
import Codec.Tunnel.Table

set_option autoImplicit false

namespace Codec.Tunnel

open Codec.Ems
open Codec.Http (Take)

def Silent (pkg : Pkg) : Prop := pkg.isWeb = true → pkg.val = []

structure Quiet (before after : Tsess) : Prop where
  id : after.id = before.id
  since : after.since = before.since
  up : after.st ≠ .err → before.st ≠ .err ∧ after.read = before.read

inductive Move (born : Pkg → Prop) (loses : Prop) : EmsTunnel → EmsTunnel → Prop where
  | line (tunnel : EmsTunnel) (line : Line) (run : Bool) (pkgs : List Pkg)
      (log : line.log = tunnel.line.log ++ pkgs) (silent : ∀ pkg ∈ pkgs, Silent pkg) :
      Move born loses tunnel ⟨line, tunnel.table, run⟩
  | change (tunnel : EmsTunnel) (addr : Nat) (change : Tsess → Tsess)
      (quiet : ∀ tsess, tunnel.table.heap addr = some tsess → Quiet tsess (change tsess)) :
      Move born loses tunnel (tunnel.modify addr change)
  | ends (tunnel : EmsTunnel) (addr : Nat) (tsess : Tsess) (change : Tsess → Tsess) (line : Line) (pkgs : List Pkg)
      (live : tunnel.table.heap addr = some tsess) (log : line.log = tunnel.line.log ++ pkgs)
      (id : (change tsess).id = tsess.id) (since : (change tsess).since = tsess.since)
      (down : (change tsess).st = .err) (own : ∀ pkg ∈ pkgs, pkg.id = tsess.id) :
      Move born loses tunnel ⟨line, tunnel.table.modify addr change, tunnel.run⟩
  | data (tunnel : EmsTunnel) (addr : Nat) (tsess : Tsess) (bytes : Str) (line : Line)
      (live : tunnel.table.heap addr = some tsess) (log : line.log = tunnel.line.log ++ [⟨msgTypeWeb, tsess.id, bytes⟩]) :
      Move born loses tunnel ⟨line, tunnel.table.modify addr fun tsess => tsess.reading bytes, tunnel.run⟩
  | lost (tunnel : EmsTunnel) (addr : Nat) (bytes : Str) (able : loses) :
      Move born loses tunnel (tunnel.modify addr fun tsess => tsess.reading bytes)
  | insert (tunnel : EmsTunnel) (pkg : Pkg) (able : born pkg) (absent : tunnelSessionFind tunnel.table pkg.id = none) :
      Move born loses tunnel { tunnel with table := tunnel.table.insert pkg tunnel.line.log.length }
  | skip (tunnel : EmsTunnel) :
      Move born loses tunnel { tunnel with table := { tunnel.table with next := tunnel.table.next + 1 } }
  | remove (tunnel : EmsTunnel) (addr : Nat) : Move born loses tunnel (tsessStopped tunnel addr)
  | wipe (tunnel : EmsTunnel) : Move born loses tunnel (tunnelStopAll tunnel)

abbrev Moves (born : Pkg → Prop) (loses : Prop) := Relation.ReflTransGen (Move born loses)

theorem moves_keep (born : Pkg → Prop) (loses : Prop) (keeps : EmsTunnel → Prop)
    (preserved : ∀ before after, keeps before → Move born loses before after → keeps after) (before after : EmsTunnel)
    (moves : Moves born loses before after) (initial : keeps before) : keeps after := by
  induction moves with
  | refl => exact initial
  | tail _ move ih => exact preserved _ _ ih move

theorem web_down_silent (id : UInt32) : Silent ⟨msgWebDown, id, []⟩ := fun _ => rfl

theorem tunnel_silent (id : UInt32) (val : Str) : Silent ⟨msgTypeTunnel, id, val⟩ := by
  intro web
  have type : (msgTypeTunnel &&& 0x0fff) ≠ msgTypeWeb := by decide
  exact absurd (of_decide_eq_true web) type

variable (line : Line) (pkg : Pkg)

theorem line_event_log (flg : Nat) : (line.event flg).log = line.log := rfl

theorem line_pack_log : ∃ pkgs, (line.pack pkg).2.log = line.log ++ pkgs ∧ ∀ other ∈ pkgs, other = pkg := by
  have none : line.log = line.log ++ [] := (List.append_nil _).symm
  dsimp only [Line.pack]
  split
  · exact ⟨[], none, List.forall_mem_nil _⟩
  · rw [line_event_log]
    split
    · exact ⟨[pkg], rfl, fun other there => List.mem_singleton.mp there⟩
    · exact ⟨[], none, List.forall_mem_nil _⟩

theorem line_pack_taken (fits : Fits line.buf pkg.val.length)
    (taken : packRoom line.buf pkg.val.length ≠ none) : (line.pack pkg).2.log = line.log ++ [pkg] := by
  have fine : (tunnelPackmsg _ pkg).ret ≠ .err := fun err => taken ((packmsg_ret _ pkg).mp err)
  dsimp only [Line.pack]
  rw [if_neg fine, line_event_log]
  exact if_pos fits

theorem line_pack_refused (refused : packRoom line.buf pkg.val.length = none) : line.pack pkg = (.err, line) := by
  have err := (packmsg_ret _ pkg).mpr refused
  dsimp only [Line.pack]
  rw [if_pos err]

theorem line_slow_log : line.slow.log = line.log := by
  dsimp only [Line.slow]
  split <;> rfl

structure LineKept (before after : Line) : Prop where
  st : after.st = before.st
  alive : after.alive = before.alive
  opened : after.opened = before.opened
  timer : after.timer = before.timer
  id : after.id = before.id

theorem line_kept_refl : LineKept line line := ⟨rfl, rfl, rfl, rfl, rfl⟩

theorem line_kept_trans (first second third : Line) (left : LineKept first second) (right : LineKept second third) :
    LineKept first third :=
  ⟨right.st.trans left.st, right.alive.trans left.alive, right.opened.trans left.opened, right.timer.trans left.timer,
    right.id.trans left.id⟩

theorem pack_kept : LineKept line (line.pack pkg).2 := by
  dsimp only [Line.pack]
  split <;> exact ⟨rfl, rfl, rfl, rfl, rfl⟩

theorem slow_kept : LineKept line line.slow := by
  dsimp only [Line.slow]
  split <;> exact ⟨rfl, rfl, rfl, rfl, rfl⟩

theorem line_pack_fields (taken : packRoom line.buf pkg.val.length ≠ none) :
    (line.pack pkg).1 = (tunnelPackmsg line.buf pkg).ret ∧ (line.pack pkg).2.buf = (tunnelPackmsg line.buf pkg).buf ∧
      (line.pack pkg).2.watch = eventSet line.opened (evtRead ||| evtWrite) line.watch := by
  have fine : (tunnelPackmsg _ pkg).ret ≠ .err := fun err => taken ((packmsg_ret _ pkg).mp err)
  dsimp only [Line.pack]
  rw [if_neg fine]
  exact ⟨rfl, rfl, rfl⟩

section Moves

variable (born : Pkg → Prop) (loses : Prop)

variable (site : Site) (tunnel : EmsTunnel) (pkg : Pkg) (addr : Nat) (connect : Connect) (tsess : Tsess) (chunk : Str)

theorem still_moves (line : Line) (run : Bool) (log : line.log = tunnel.line.log) :
    Moves born loses tunnel ⟨line, tunnel.table, run⟩ :=
  .single (.line _ line run [] (log.trans (List.append_nil _).symm) (List.forall_mem_nil _))

theorem pack_moves (silent : Silent pkg) : Moves born loses tunnel (tunnel.pack pkg).2 := by
  obtain ⟨pkgs, log, own⟩ := line_pack_log _ pkg
  exact .single (.line _ _ _ pkgs log fun other there => own _ there ▸ silent)

theorem tsess_err_moves : Moves born loses tunnel (tsessErr tunnel addr) := by
  unfold tsessErr
  cases live : tunnel.table.heap addr with
  | none => exact .refl
  | some tsess =>
    obtain ⟨pkgs, log, own⟩ := line_pack_log _ _
    exact .single (.ends _ addr _ _ _ pkgs live log rfl rfl rfl fun pkg there => own pkg there ▸ rfl)

theorem tsess_start_moves (live : tunnel.table.heap addr = some tsess) (up : tsess.st ≠ .err) :
    Moves born loses tunnel (tsessStart tunnel addr connect).2 := by
  have quiet (change : Tsess → Tsess) (id : (change tsess).id = tsess.id) (since : (change tsess).since = tsess.since)
      (read : (change tsess).read = tsess.read) : Moves born loses tunnel (tunnel.modify addr change) := by
    refine .single (.change _ addr _ fun other there => ?_)
    cases Option.some.inj (live.symm.trans there)
    exact ⟨id, since, fun _ => ⟨up, read⟩⟩
  cases connect with
  | online => exact quiet _ rfl rfl rfl
  | progress => exact quiet _ rfl rfl rfl
  | failed => exact tsess_err_moves born _ _ addr
  | noSess => exact quiet _ rfl rfl rfl
  | noTsess => exact .refl

theorem unpack_moves (tunnel : EmsTunnel) (addr : Nat) : Moves born loses tunnel (tunnelUnpackmsg pkg tunnel addr).2 := by
  unfold tunnelUnpackmsg
  cases tunnel.table.heap addr with
  | none => exact .refl
  | some tsess =>
    dsimp only
    split
    · exact .refl
    · exact .single (.change _ addr _ fun _ _ => ⟨rfl, rfl, fun up => ⟨up, rfl⟩⟩)

theorem tunnel_err_moves : Moves born loses tunnel (tunnelErr tunnel) := by
  let down : EmsTunnel := { tunnel with line := { tunnel.line with st := .err } }
  have first : Moves born _ _ down := still_moves born loses _ _ _ rfl
  exact (first.tail (.wipe down)).trans (still_moves born _ _ _ _ rfl)

theorem tunnel_stopped_moves : Moves born loses tunnel (tunnelStopped tunnel) := by
  let down : EmsTunnel := { tunnel with line := { tunnel.line with st := .stopped } }
  have first : Moves born _ _ down := still_moves born loses _ _ _ rfl
  exact (first.tail (.wipe down)).trans (still_moves born _ _ _ _ rfl)

theorem into_reg_moves : Moves born loses tunnel (tunnelStatusIntoReg site tunnel) := by
  have first : Moves born _ _ { tunnel with line := { tunnel.line with st := .reg } } := still_moves born loses _ _ _ rfl
  have second := first.trans (pack_moves born _ _ _ (tunnel_silent tunnel.line.id site.register))
  exact second.trans (still_moves born _ _ _ _ rfl)

theorem into_hb_moves : Moves born loses tunnel (tunnelStatusIntoHb site tunnel) := by
  have first : Moves born _ _ { tunnel with line := { tunnel.line with st := .hb } } := still_moves born loses _ _ _ rfl
  have second := first.trans (pack_moves born _ _ _ (tunnel_silent tunnel.line.id site.heartbeat))
  exact second.trans (still_moves born _ _ _ _ rfl)

theorem tunnel_start_moves (id : UInt32) : Moves born loses tunnel (tunnelStart site tunnel connect id).2 := by
  let begun : Line := { tunnel.line with st := .start }
  let fresh : Line := if tunnel.line.alive then begun
    else { begun with alive := true, opened := false, watch := none, timer := none, buf := Buffer.init 1024 }
  have same : fresh.log = tunnel.line.log := by
    dsimp only [fresh]
    split <;> rfl
  have ready : Moves born _ _ { tunnel with line := { fresh with buf := fresh.buf.clear, id := id } } :=
    still_moves born loses _ _ _ same
  have given : Moves born _ _ { tunnel with line := begun } := still_moves born loses _ _ _ rfl
  have failed := ready.trans (tunnel_err_moves born _ _)
  have either (alive : Bool) : Moves born loses tunnel (if alive = true
      then (Ret.ok, tunnelErr { tunnel with line := { fresh with buf := fresh.buf.clear, id := id } })
      else (Ret.err, { tunnel with line := begun })).2 := by
    split
    · exact failed
    · exact given
  cases connect with
  | online =>
    exact (ready.trans (still_moves born _ _ { fresh with buf := fresh.buf.clear, id := id, opened := true } _
      rfl)).trans (into_reg_moves born _ site _)
  | progress => exact still_moves born _ _ _ _ same
  | failed => exact failed
  | noSess => exact either _
  | noTsess => exact either _

theorem dispatch_new_moves
    (able : site.connects tunnel.table.next ≠ .noTsess → born pkg) (sound : TableSound tunnel.table) (absent : tunnelSessionFind tunnel.table pkg.id = none) :
    Moves born loses tunnel (tunnelDispatchNew site tunnel pkg).2 := by
  let inserted : EmsTunnel := { tunnel with table := tunnel.table.insert pkg tunnel.line.log.length }
  have live : inserted.table.heap _ = some
      _ :=
    (insert_live _ sound pkg _ _ _).mpr (.inl ⟨rfl, rfl⟩)
  have started (connect : Connect) := tsess_start_moves born loses _ _ connect _ live (by simp)
  unfold tunnelDispatchNew
  dsimp only
  split
  · exact (Relation.ReflTransGen.single (.skip _)).trans (pack_moves born _ _ _ (web_down_silent _))
  · rename_i some
    apply Relation.ReflTransGen.head (.insert _ pkg (able some) absent)
    have begun := started (site.connects tunnel.table.next)
    split
    · rename_i next same
      rw [same] at begun
      exact begun.trans (unpack_moves born _ pkg _ _)
    · rename_i next _ same
      rw [same] at begun
      exact (begun.tail (.remove _ _)).trans (pack_moves born _ _ _ (web_down_silent _))

theorem dispatch_web_moves (sound : TableSound tunnel.table)
    (able : tunnelSessionFind tunnel.table pkg.id = none → site.connects tunnel.table.next ≠ .noTsess → born pkg) :
    Moves born loses tunnel (tunnelDispatchToWeb site tunnel pkg).2 := by
  unfold tunnelDispatchToWeb
  cases found : tunnelSessionFind _ _ with
  | none => exact dispatch_new_moves born _ site _ pkg (able found) sound found
  | some addr =>
    dsimp only
    split
    · exact .single (.remove _ addr)
    · exact unpack_moves born _ pkg _ addr

theorem dispatch_tunnel_moves : Moves born loses tunnel (tunnelDispatchToTunnel site tunnel pkg).2 := by
  unfold tunnelDispatchToTunnel
  split
  · exact .refl
  · split
    · exact tunnel_err_moves born _ _
    · split
      · exact still_moves born _ _ _ _ rfl
      · exact .refl

theorem frame_moves (sound : TableSound tunnel.table) (able : pkg.isWeb = true → tunnelSessionFind tunnel.table pkg.id = none →
      site.connects tunnel.table.next ≠ .noTsess → born pkg) : Moves born loses tunnel (tunnelFrame site tunnel pkg) := by
  have dispatched : Moves born loses tunnel (tunnelDispatcher site tunnel pkg).2 := by
    unfold tunnelDispatcher
    split
    · rename_i web
      exact dispatch_web_moves born _ site _ pkg sound (able web)
    · split
      · exact dispatch_tunnel_moves born _ site _ pkg
      · exact .refl
  unfold tunnelFrame
  split <;> rename_i next same <;> rw [same] at dispatched
  · exact dispatched.trans (tunnel_err_moves born _ next)
  · exact dispatched.trans (tunnel_err_moves born _ next)
  · exact dispatched.trans (still_moves born _ next _ _ (line_slow_log _))
  · exact dispatched

theorem notify_moves : Moves born loses tunnel { tunnel with table := tunnel.table.notifyAll } := by
  have rounds (addrs : List Nat) (table : Table) : Moves born loses { tunnel with table := table }
      { tunnel with table := addrs.foldl (fun table addr => table.modify addr Tsess.restoreSpeed) table } := by
    induction addrs generalizing table with
    | nil => exact .refl
    | cons addr rest ih =>
      have first : Move born loses { tunnel with table := table }
          _ :=
        .change _ addr Tsess.restoreSpeed fun _ _ => ⟨rfl, rfl, fun up => ⟨up, rfl⟩⟩
      exact .head first (ih _)
  exact rounds _ _

theorem send_moves (takes : List Take) : Moves born loses tunnel (tunnelSend tunnel takes) := by
  have notified : Moves born loses tunnel
      { tunnel with table := if (tunnelSendMsg tunnel.line.buf tunnel.line.notify takes).notified = true
        then tunnel.table.notifyAll else tunnel.table } := by
    split
    · exact notify_moves born _ _
    · exact .refl
  unfold tunnelSend
  dsimp only
  split
  · exact tunnel_err_moves born _ _
  · split
    · have closed := still_moves born loses _ { tunnel.line with opened := false } tunnel.run rfl
      exact closed.trans (tunnel_err_moves born _ _)
    · apply notified.trans (still_moves born _ _ _ _ _)
      split <;> rfl

theorem timeout_moves (id : UInt32) : Moves born loses tunnel (tunnelTimeout site tunnel connect id) := by
  have fired : Moves born _ _ { tunnel with line := { tunnel.line with timer := none } } := still_moves born loses _ _ _ rfl
  unfold tunnelTimeout
  split
  · exact fired.trans (tunnel_err_moves born _ _)
  · exact fired.trans (tunnel_err_moves born _ _)
  · exact fired.trans (into_hb_moves born _ site _)
  · exact fired.trans (tunnel_err_moves born _ _)
  · exact fired.trans (tunnel_start_moves born _ site _ _ id)
  · exact fired

theorem ended_moves (change : Tsess → Tsess) (line : Line)
    (pkgs : List Pkg) (live : tunnel.table.heap addr = some tsess) (log : line.log = tunnel.line.log ++ pkgs)
    (id : (change tsess).id = tsess.id) (since : (change tsess).since = tsess.since) (own : ∀ pkg ∈ pkgs, pkg.id = tsess.id) :
    Moves born loses tunnel (tsessErr ⟨line, tunnel.table.modify addr change, tunnel.run⟩ addr) := by
  obtain ⟨more, logged, down⟩ := line_pack_log line _
  have changed : (tunnel.table.modify addr change).heap addr = some (change tsess) := by rw [modify_here, live, Option.map_some]
  unfold tsessErr
  rw [changed]
  dsimp only [EmsTunnel.modify, EmsTunnel.pack]
  rw [modify_twice]
  refine .single (.ends _ addr _ _ _ (pkgs ++ more) live ?_ id since rfl ?_)
  · rw [logged, log, List.append_assoc]
  · intro pkg there
    rcases List.mem_append.mp there with first | last
    · exact own pkg first
    · rw [down pkg last]
      exact id

theorem process_log : ∃ line pkgs, (tsessProcessRsp tunnel addr tsess chunk).2 =
      ⟨line, tunnel.table.modify addr fun tsess => tsess.reading chunk, tunnel.run⟩ ∧
        line.log = tunnel.line.log ++ pkgs ∧ ∀ pkg ∈ pkgs, pkg.id = tsess.id := by
  unfold tsessProcessRsp
  split
  · exact ⟨tunnel.line, [], rfl, (List.append_nil _).symm, List.forall_mem_nil _⟩
  · obtain ⟨pkgs, log, own⟩ := line_pack_log _ _
    exact ⟨_, pkgs, rfl, log, fun pkg there => own pkg there ▸ rfl⟩

theorem eof_moves (live : tunnel.table.heap addr = some tsess) :
    Moves born loses tunnel (tsessErr (tsessProcessRsp tunnel addr tsess chunk).2 addr) := by
  obtain ⟨line, pkgs, same, log, own⟩ := process_log _ addr _ _
  rw [same]
  exact ended_moves born _ _ addr _ _ line pkgs live log rfl rfl own

theorem process_moves (live : tunnel.table.heap addr = some tsess) (short : chunk.length ≤ 2040)
    (able : chunk ≠ [] → packRoom tunnel.line.buf chunk.length = none → loses) :
    Moves born loses tunnel (tsessProcessRsp tunnel addr tsess chunk).2 := by
  unfold tsessProcessRsp
  split
  · rename_i none
    exact .single (.change _ addr _ fun old _ => ⟨rfl, rfl, fun up => ⟨up, by simp [Tsess.reading, none]⟩⟩)
  · rename_i some
    by_cases refused : packRoom tunnel.line.buf chunk.length = none
    · have same := line_pack_refused _ ⟨msgTypeWeb, tsess.id, chunk⟩ refused
      dsimp only [EmsTunnel.pack, EmsTunnel.modify]
      rw [same]
      exact .single (.lost _ addr _ (able some refused))
    · have log := line_pack_taken _ ⟨msgTypeWeb, tsess.id, chunk⟩ (fits_of_short _ _ short) refused
      exact .single (.data _ addr _ _ _ live log)

theorem read_moves (live : tunnel.table.heap addr = some tsess) (short : chunk.length ≤ 2040)
    (able : chunk ≠ [] → packRoom tunnel.line.buf chunk.length = none → loses) :
    Moves born loses tunnel (tsessRead tunnel addr tsess chunk) := by
  have processed := process_moves born _ _ addr _ _ live short able
  unfold tsessRead
  split <;> rename_i next same <;> rw [same] at processed
  · exact processed.tail (.change next addr _ fun _ _ => ⟨rfl, rfl, fun up => ⟨up, rfl⟩⟩)
  · exact processed

theorem tsess_send_moves (takes : List Take) : Moves born loses tunnel (tsessSend tunnel addr tsess takes) := by
  have quiet (before : EmsTunnel) (change : Tsess → Tsess) (kept : ∀ tsess, Quiet _ _) :
      Moves born loses _ _ := .single (.change before addr change fun tsess _ => kept tsess)
  have timed := quiet tunnel (fun tsess => { tsess with timer := some 120000 }) fun _ => ⟨rfl, rfl, fun up => ⟨up, rfl⟩⟩
  unfold tsessSend
  dsimp only
  split
  · exact timed.trans (tsess_err_moves born _ _ addr)
  · split
    · have closed := quiet (tunnel.modify addr fun tsess => { tsess with timer := some 120000 })
        (fun tsess => { tsess with opened := false }) fun _ => ⟨rfl, rfl, fun up => ⟨up, rfl⟩⟩
      exact (timed.trans closed).trans (tsess_err_moves born _ _ addr)
    · split
      · exact timed
      · rename_i sent _ _ _
        let left := ((tsess.buf.seekRd sent.length .cur).getD tsess.buf).refresh
        have sending := timed.trans (quiet _ (fun tsess => { tsess with
          buf := left, watch := if left.len = 0 then some evtRead else tsess.watch })
            fun _ => ⟨rfl, rfl, fun up => ⟨up, rfl⟩⟩)
        split
        · exact sending.trans (still_moves born _ _ _ _ rfl)
        · exact sending

end Moves

def Births (site : Site) (tunnel : EmsTunnel) (event : Event) (pkg : Pkg) : Prop :=
  event = .frame pkg ∧ tunnel.line.talking = true ∧ pkg.isWeb = true ∧
    tunnelSessionFind tunnel.table pkg.id = none ∧ site.connects tunnel.table.next ≠ .noTsess

def Refused (tunnel : EmsTunnel) : Event → Prop
  | .webRead addr chunk => (∃ tsess, tunnel.table.heap addr = some tsess ∧ tsess.st = .normal) ∧ chunk.val ≠ [] ∧
      packRoom tunnel.line.buf chunk.val.length = none
  | _ => False

theorem step_moves (site : Site) (tunnel : EmsTunnel) (event : Event) (sound : TableSound tunnel.table) :
    Moves (Births site tunnel event) (Refused tunnel event) tunnel (step site tunnel event) := by
  cases event with
  | start connect id =>
    dsimp only [step]
    split
    · exact .refl
    · exact (tunnel_start_moves _ _ site _ _ id).trans (still_moves _ _ _ _ _ rfl)
  | stop =>
    dsimp only [step]
    split
    · exact .refl
    · split
      · exact still_moves _ _ _ _ _ rfl
      · exact (tunnel_stopped_moves _ _ _).trans (still_moves _ _ _ _ _ rfl)
  | connected error =>
    dsimp only [step]
    split
    · exact .refl
    · split
      · exact tunnel_err_moves _ _ _
      · exact (still_moves _ _ _ (tunnel.line.event _) _ rfl).trans (into_reg_moves _ _ site _)
  | frame pkg =>
    dsimp only [step]
    split
    · rename_i talking
      exact frame_moves _ _ site _ pkg sound fun web absent some => ⟨rfl, talking, web, absent, some⟩
    · exact .refl
  | broken =>
    dsimp only [step]
    split
    · exact tunnel_err_moves _ _ _
    · exact .refl
  | send takes =>
    dsimp only [step]
    split
    · exact send_moves _ _ _ _
    · exact .refl
  | timeout connect id =>
    dsimp only [step]
    split
    · exact .refl
    · exact timeout_moves _ _ site _ _ id
  | webConnected addr error =>
    dsimp only [step]
    cases live : tunnel.table.heap addr with
    | none => exact .refl
    | some tsess =>
      dsimp only
      split
      · exact .refl
      · rename_i connecting
        split
        · exact tsess_err_moves _ _ _ addr
        · refine .single (.change _ addr _ fun other there => ⟨rfl, rfl, fun _ => ⟨?_, rfl⟩⟩)
          cases Option.some.inj (live.symm.trans there)
          exact fun err => connecting (err ▸ by simp)
  | webRead addr chunk =>
    dsimp only [step]
    cases live : tunnel.table.heap addr with
    | none => exact .refl
    | some tsess =>
      dsimp only
      split
      · rename_i normal
        exact read_moves _ _ _ addr _ _ live (by omega) fun some refused =>
          ⟨⟨tsess, live, normal⟩, some, refused⟩
      · exact .refl
  | webEof addr chunk =>
    dsimp only [step]
    cases live : tunnel.table.heap addr with
    | none => exact .refl
    | some tsess =>
      dsimp only
      split
      · exact eof_moves _ _ _ addr _ _ live
      · exact .refl
  | webFailed addr lost =>
    dsimp only [step]
    cases live : tunnel.table.heap addr with
    | none => exact .refl
    | some tsess =>
      dsimp only
      split
      · exact ended_moves _ _ _ addr _ _ _ [] live (List.append_nil _).symm rfl rfl
          (List.forall_mem_nil _)
      · exact .refl
  | webSend addr takes =>
    dsimp only [step]
    cases live : tunnel.table.heap addr with
    | none => exact .refl
    | some tsess =>
      dsimp only
      split
      · exact tsess_send_moves _ _ _ addr _ _
      · exact .refl
  | webBroken addr => exact tsess_err_moves _ _ _ addr
  | webTimeout addr =>
    dsimp only [step]
    cases tunnel.table.heap addr with
    | none => exact .refl
    | some tsess =>
      have fired : Moves (Births site tunnel (.webTimeout addr)) (Refused tunnel (.webTimeout addr)) _
          (tunnel.modify addr fun tsess => { tsess with timer := none }) :=
        .single (.change _ addr _ fun _ _ => ⟨rfl, rfl, fun up => ⟨up, rfl⟩⟩)
      dsimp only
      split
      · exact .refl
      · split
        · exact fired.trans (tsess_err_moves _ _ _ addr)
        · exact fired

end Codec.Tunnel
