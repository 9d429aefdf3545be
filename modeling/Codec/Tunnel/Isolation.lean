import Codec.Tunnel.Upstream

set_option autoImplicit false

namespace Codec.Tunnel

open Codec.Ems Codec.Lib
open Codec.Http (Take)

structure Spared (id : UInt32) (before after : EmsTunnel) : Prop where
  line : LineKept before.line after.line
  run : after.run = before.run
  others : ∀ addr tsess, tsess.id ≠ id → (after.table.heap addr = some tsess ↔ before.table.heap addr = some tsess)

structure Isolated (id : UInt32) (before after : EmsTunnel) : Prop extends Spared id before after where
  found : ∀ other, other ≠ id → tunnelSessionFind after.table other = tunnelSessionFind before.table other

def Overrun (tunnel : EmsTunnel) (pkg : Pkg) : Prop :=
  pkg.isRst = false ∧ ∃ addr tsess, tunnelSessionFind tunnel.table pkg.id = some addr ∧
    tunnel.table.heap addr = some tsess ∧ Insufficient tsess pkg

section Spared

variable (id : UInt32)

variable (tunnel : EmsTunnel) (addr : Nat)

theorem spared_refl : Spared id tunnel tunnel := ⟨line_kept_refl _, rfl, fun _ _ _ => Iff.rfl⟩

theorem spared_trans (first second third : EmsTunnel) (left : Spared id first second) (right : Spared id second third) :
    Spared id first third where
  line := line_kept_trans _ _ _ left.line right.line
  run := right.run.trans left.run
  others := fun addr _ apart => (right.others addr _ apart).trans (left.others addr _ apart)

theorem spared_line (line : Line) (kept : LineKept tunnel.line line) : Spared id tunnel { tunnel with line := line } :=
  ⟨kept, rfl, fun _ _ _ => Iff.rfl⟩

theorem spared_modify (change : Tsess → Tsess)
    (own : ∀ tsess, tunnel.table.heap addr = some tsess → tsess.id = id ∧ (change tsess).id = id) :
    Spared id tunnel (tunnel.modify addr change) := by
  refine ⟨line_kept_refl _, rfl, fun other tsess apart => ?_⟩
  by_cases here : other = addr
  · subst other
    have gone (item : Tsess) (named : item.id = id) : item ≠ tsess := fun same => apart (same ▸ named)
    dsimp only [EmsTunnel.modify]
    rw [modify_here]
    cases live : tunnel.table.heap addr with
    | none => exact ⟨(nomatch ·), (nomatch ·)⟩
    | some old =>
      obtain ⟨was, now⟩ := own old live
      rw [Option.map_some]
      exact ⟨fun same => absurd (Option.some.inj same) (gone _ now), fun same => absurd (Option.some.inj same) (gone _ was)⟩
  · dsimp only [EmsTunnel.modify]
    rw [modify_other _ _ _ _ here]

theorem spared_remove
    (own : ∀ tsess, tunnel.table.heap addr = some tsess → tsess.id = id) : Spared id tunnel (tsessStopped tunnel addr) := by
  refine ⟨line_kept_refl _, rfl, fun other tsess apart => ?_⟩
  refine (remove_live _ addr _ _).trans ⟨And.right, fun live => ⟨?_, live⟩⟩
  exact fun here => apart (own _ (here ▸ live))

theorem spared_insert (sound : TableSound tunnel.table) (pkg : Pkg) (since : Nat) :
    Spared pkg.id tunnel { tunnel with table := tunnel.table.insert pkg since } := by
  refine ⟨line_kept_refl _, rfl, fun addr tsess apart => ?_⟩
  refine (insert_live _ sound pkg _ addr _).trans ⟨?_, .inr⟩
  rintro (⟨_, rfl⟩ | old)
  · exact absurd rfl apart
  · exact old

theorem spared_pack (pkg : Pkg) : Spared id tunnel (tunnel.pack pkg).2 := spared_line id _ _ (pack_kept _ pkg)

theorem spared_err
    (own : ∀ tsess, tunnel.table.heap addr = some tsess → tsess.id = id) : Spared id tunnel (tsessErr tunnel addr) := by
  unfold tsessErr
  cases live : tunnel.table.heap addr with
  | none => exact spared_refl id _
  | some tsess =>
    have down := spared_modify id _ addr (fun tsess => { tsess with st := .err }) fun item there =>
      ⟨own item there, own item there⟩
    exact spared_trans id _ _ _ down (spared_pack id _ _)

end Spared

variable (id : UInt32) (site : Site) (tunnel : EmsTunnel) (count : Nat) (addr : Nat) (connect : Connect) (tsess : Tsess) (pkg : Pkg)

theorem unpack_insufficient (tunnel : EmsTunnel) (addr : Nat) (tsess : Tsess)
    (live : tunnel.table.heap addr = some tsess) (full : Insufficient tsess pkg) :
    tunnelUnpackmsg pkg tunnel addr = (.err, tunnel) := by
  rw [tunnelUnpackmsg, live]
  exact if_pos full

theorem unpack_spared (tunnel : EmsTunnel) (addr : Nat)
    (own : ∀ tsess, tunnel.table.heap addr = some tsess → tsess.id = pkg.id ∧ ¬ Insufficient tsess pkg) :
    ((tunnelUnpackmsg pkg tunnel addr).1 = .ok ∨ (tunnelUnpackmsg pkg tunnel addr).1 = .slowDown) ∧
      Spared pkg.id tunnel (tunnelUnpackmsg pkg tunnel addr).2 := by
  unfold tunnelUnpackmsg
  cases live : tunnel.table.heap addr with
  | none => exact ⟨.inl rfl, spared_refl _ _⟩
  | some tsess =>
    dsimp only
    rw [if_neg (own _ live).2]
    constructor
    · exact (ite_eq_or_eq _ _ _).symm
    · exact spared_modify _ _ addr _ fun item there => ⟨(own item there).1, (own item there).1⟩

theorem start_own (tsess next : Tsess) (live : tunnel.table.heap addr = some tsess)
    (there : (tsessStart tunnel addr connect).2.table.heap addr = some next) : next.id = tsess.id ∧ next.buf = tsess.buf := by
  have changed (change : Tsess → Tsess) (id : (change tsess).id = tsess.id) (buf : (change tsess).buf = tsess.buf)
      (now : (tunnel.table.modify addr change).heap addr = some next) : next.id = tsess.id ∧ next.buf = tsess.buf := by
    rw [modify_here, live, Option.map_some] at now
    cases now
    exact ⟨id, buf⟩
  cases connect with
  | online => exact changed _ rfl rfl there
  | progress => exact changed _ rfl rfl there
  | failed =>
    dsimp only [tsessStart, tsessErr] at there
    rw [live] at there
    exact changed _ rfl rfl there
  | noSess => exact changed _ rfl rfl there
  | noTsess =>
    cases Option.some.inj (live.symm.trans there)
    exact ⟨rfl, rfl⟩

theorem start_spared (own : ∀ tsess, tunnel.table.heap addr = some tsess → tsess.id = id) :
    Spared id tunnel (tsessStart tunnel addr connect).2 := by
  have changed (change : Tsess → Tsess) (same : ∀ tsess, (change _).id = tsess.id) :
      Spared id _ _ :=
    spared_modify id _ addr change fun tsess live => ⟨own _ live, (same tsess).trans (own _ live)⟩
  cases connect with
  | online => exact changed _ fun _ => rfl
  | progress => exact changed _ fun _ => rfl
  | failed => exact spared_err id _ addr own
  | noSess => exact changed _ fun _ => rfl
  | noTsess => exact spared_refl id _

theorem fresh_sufficient (buf : tsess.buf = Buffer.init 1024) : ¬ Insufficient tsess pkg := by
  rintro ⟨_, large⟩
  have size : tsess.buf.size = 1024 := buf ▸ List.length_replicate
  omega

theorem dispatch_new_spared (sound : TableSound tunnel.table) :
    ((tunnelDispatchNew site tunnel pkg).1 = .ok ∨ (tunnelDispatchNew site tunnel pkg).1 = .slowDown) ∧
      Spared pkg.id tunnel (tunnelDispatchNew site tunnel pkg).2 := by
  let inserted : EmsTunnel := { tunnel with table := tunnel.table.insert pkg tunnel.line.log.length }
  have first : Spared _ _ inserted := spared_insert _ sound pkg _
  have fresh := (insert_live _ sound pkg tunnel.line.log.length _ _).mpr (.inl ⟨rfl, rfl⟩)
  have own (connect : Connect) (tsess : Tsess)
      (there : (tsessStart inserted tunnel.table.next connect).2.table.heap tunnel.table.next = some tsess) :
      tsess.id = pkg.id ∧ ¬ Insufficient tsess pkg := by
    obtain ⟨id, buf⟩ := start_own _ _ _ _ _ fresh there
    exact ⟨id, fresh_sufficient _ pkg buf⟩
  have begun (connect : Connect) : Spared pkg.id tunnel (tsessStart inserted tunnel.table.next connect).2 := by
    refine spared_trans _ _ _ _ first (start_spared _ _ _ _ fun tsess there => ?_)
    cases Option.some.inj (fresh.symm.trans there)
    rfl
  have web_down (next : EmsTunnel) := spared_pack pkg.id next ⟨msgWebDown, pkg.id, []⟩
  have skipped : Spared pkg.id tunnel { tunnel with table := { tunnel.table with next := tunnel.table.next + 1 } } :=
    ⟨line_kept_refl _, rfl, fun _ _ _ => Iff.rfl⟩
  unfold tunnelDispatchNew
  dsimp only
  split
  · exact ⟨.inl rfl, spared_trans _ _ _ _ skipped (web_down _)⟩
  · have owned := own (site.connects tunnel.table.next)
    have started := begun (site.connects tunnel.table.next)
    split <;> rename_i same
    · rw [same] at owned started
      obtain ⟨ret, spared⟩ := unpack_spared pkg _ _ owned
      exact ⟨ret, spared_trans _ _ _ _ started spared⟩
    · rw [same] at owned started
      have stopped := spared_remove _ _ _ fun tsess there => (owned _ there).1
      exact ⟨.inl rfl, spared_trans _ _ _ _ (spared_trans _ _ _ _ started stopped) (web_down _)⟩

theorem dispatch_overrun (overrun : Overrun tunnel pkg) : tunnelDispatchToWeb site tunnel pkg = (.err, tunnel) := by
  obtain ⟨data, addr, tsess, found, live, full⟩ := overrun
  have more : ¬ pkg.isRst = true := by simp [data]
  rw [tunnelDispatchToWeb, found]
  dsimp only
  rw [if_neg more, unpack_insufficient pkg _ addr _ live full]

theorem dispatch_spared (sound : TableSound tunnel.table) (fits : ¬ Overrun tunnel pkg) :
    ((tunnelDispatchToWeb site tunnel pkg).1 = .ok ∨ (tunnelDispatchToWeb site tunnel pkg).1 = .slowDown) ∧
      Spared pkg.id tunnel (tunnelDispatchToWeb site tunnel pkg).2 := by
  unfold tunnelDispatchToWeb
  cases found : tunnelSessionFind _ _ with
  | none => exact dispatch_new_spared site _ pkg sound
  | some addr =>
    obtain ⟨owner, live, named⟩ := session_find_live _ sound _ addr found
    have own (tsess : Tsess) (there : tunnel.table.heap addr = some tsess) : tsess.id = pkg.id := by
      cases Option.some.inj (live.symm.trans there)
      exact named
    dsimp only
    split
    · exact ⟨.inl rfl, spared_remove _ _ addr own⟩
    · rename_i data
      refine unpack_spared pkg _ addr fun tsess there => ⟨own _ there, fun full => fits ?_⟩
      exact ⟨Bool.eq_false_iff.mpr data, addr, tsess, found, there, full⟩

def Shut (line : Line) : Prop := line.st = .err → line.opened = false ∧ line.timer = some 5000

theorem shut_kept (before after : Line) (shut : Shut before) (kept : LineKept before after) : Shut after := by
  intro err
  rw [kept.opened, kept.timer]
  exact shut (kept.st ▸ err)

theorem shut_err : Shut (tunnelErr tunnel).line := fun _ => ⟨rfl, rfl⟩

theorem shut_up (line : Line) (up : line.st ≠ .err) : Shut line := fun err => absurd err up

theorem tsess_err_kept : LineKept tunnel.line (tsessErr tunnel addr).line := by
  unfold tsessErr
  cases tunnel.table.heap addr with
  | none => exact line_kept_refl _
  | some tsess => exact pack_kept _ _

theorem process_kept (chunk : Str) : LineKept tunnel.line (tsessProcessRsp tunnel addr tsess chunk).2.line := by
  dsimp only [tsessProcessRsp]
  split
  · exact line_kept_refl _
  · exact pack_kept _ _

theorem read_kept (chunk : Str) : LineKept tunnel.line (tsessRead tunnel addr tsess chunk).line := by
  have processed := process_kept tunnel addr tsess chunk
  unfold tsessRead
  split <;> rename_i same <;> rw [same] at processed <;> exact processed

theorem tsess_send_kept (takes : List Take) : LineKept tunnel.line (tsessSend tunnel addr tsess takes).line := by
  have err (change : Tsess → Tsess) := tsess_err_kept (tunnel.modify addr change) addr
  unfold tsessSend
  dsimp only
  split
  · exact err _
  · split
    · exact tsess_err_kept ((tunnel.modify addr _).modify addr _) addr
    · split
      · exact line_kept_refl _
      · split
        · exact ⟨rfl, rfl, rfl, rfl, rfl⟩
        · exact line_kept_refl _

theorem into_up : Shut (tunnelStatusIntoReg site tunnel).line ∧ Shut (tunnelStatusIntoHb site tunnel).line := by
  constructor
  · have kept := pack_kept { tunnel.line with st := .reg } ⟨msgTypeTunnel, tunnel.line.id, site.register⟩
    exact shut_up _ fun err => nomatch (kept.st.symm.trans err : Status.reg = .err)
  · have kept := pack_kept { tunnel.line with st := .hb } ⟨msgTypeTunnel, tunnel.line.id, site.heartbeat⟩
    exact shut_up _ fun err => nomatch (kept.st.symm.trans err : Status.hb = .err)

theorem start_shut (id : UInt32) : Shut (tunnelStart site tunnel connect id).2.line := by
  have either (p : Prop) [Decidable p] (line : Line) : Shut (if p then (Ret.ok, tunnelErr { tunnel with line := line })
      else (Ret.err, { tunnel with line := { tunnel.line with st := .start } })).2.line := by
    split
    · exact shut_err _
    · exact shut_up _ (nomatch ·)
  cases connect with
  | online => exact (into_up site _).1
  | progress => exact shut_up _ (nomatch ·)
  | failed => exact shut_err _
  | noSess => exact either _ _
  | noTsess => exact either _ _

theorem frame_shut (sound : TableSound tunnel.table) (shut : Shut tunnel.line) : Shut (tunnelFrame site tunnel pkg).line := by
  have dispatched : Shut (tunnelDispatcher site tunnel pkg).2.line := by
    unfold tunnelDispatcher
    split
    · by_cases overrun : Overrun tunnel pkg
      · rw [dispatch_overrun site _ pkg overrun]
        exact shut
      · exact shut_kept _ _ shut (dispatch_spared site _ pkg sound overrun).2.line
    · split
      · unfold tunnelDispatchToTunnel
        split
        · exact shut
        · split
          · exact shut_err _
          · split
            · exact shut_up _ (nomatch ·)
            · exact shut
      · exact shut
  unfold tunnelFrame
  split <;> rename_i next same <;> rw [same] at dispatched
  · exact shut_err next
  · exact shut_err next
  · exact shut_kept _ _ dispatched (slow_kept _)
  · exact dispatched

theorem step_shut (event : Event) (sound : TableSound tunnel.table)
    (shut : Shut tunnel.line) : Shut (step site tunnel event).line := by
  cases event with
  | start connect id =>
    dsimp only [step]
    split
    · exact shut
    · exact start_shut site _ _ id
  | stop =>
    dsimp only [step]
    split
    · exact shut
    · split
      · exact shut
      · refine shut_up _ fun err => ?_
        dsimp only [tunnelStopped, tunnelStopAll] at err
        split at err <;> cases err
  | connected error =>
    dsimp only [step]
    split
    · exact shut
    · split
      · exact shut_err _
      · exact (into_up site _).1
  | frame pkg =>
    dsimp only [step]
    split
    · exact frame_shut site _ pkg sound shut
    · exact shut
  | broken =>
    dsimp only [step]
    split
    · exact shut_err _
    · exact shut
  | send takes =>
    dsimp only [step]
    split
    · dsimp only [tunnelSend]
      split
      · exact shut_err _
      · split
        · exact shut_err _
        · refine shut_kept _ _ shut ?_
          split <;> exact ⟨rfl, rfl, rfl, rfl, rfl⟩
    · exact shut
  | timeout connect id =>
    dsimp only [step]
    split
    · exact shut
    · dsimp only [tunnelTimeout]
      split
      · exact shut_err _
      · exact shut_err _
      · exact (into_up site _).2
      · exact shut_err _
      · exact start_shut site _ _ id
      · rename_i err
        exact shut_up _ err
  | webConnected addr error =>
    dsimp only [step]
    split
    · exact shut
    · split
      · exact shut
      · split
        · exact shut_kept _ _ shut (tsess_err_kept _ addr)
        · exact shut
  | webRead addr chunk =>
    dsimp only [step]
    split
    · exact shut
    · split
      · exact shut_kept _ _ shut (read_kept _ addr _ _)
      · exact shut
  | webEof addr chunk =>
    dsimp only [step]
    split
    · exact shut
    · split
      · exact shut_kept _ _ shut (line_kept_trans _ _ _ (process_kept _ addr _ _) (tsess_err_kept _ addr))
      · exact shut
  | webFailed addr lost =>
    dsimp only [step]
    split
    · exact shut
    · split
      · exact shut_kept _ _ shut (tsess_err_kept (tunnel.modify addr _) addr)
      · exact shut
  | webSend addr takes =>
    dsimp only [step]
    split
    · exact shut
    · split
      · exact shut_kept _ _ shut (tsess_send_kept _ addr _ _)
      · exact shut
  | webBroken addr => exact shut_kept _ _ shut (tsess_err_kept _ addr)
  | webTimeout addr =>
    dsimp only [step]
    split
    · exact shut
    · split
      · exact shut
      · split
        · exact shut_kept _ _ shut (tsess_err_kept (tunnel.modify addr _) addr)
        · exact shut

theorem err_dead (sound : TableSound tunnel.table) (addr : Nat) (tsess : Tsess) :
    (tunnelErr tunnel).table.heap addr ≠ some tsess :=
  stop_all_live _ sound addr _

theorem err_line : (tunnelErr tunnel).line.st = .err ∧
    (tunnelErr tunnel).line.alive = tunnel.line.alive ∧ (tunnelErr tunnel).line.id = tunnel.line.id := by
  dsimp only [tunnelErr, tunnelStopAll, Line.shutdown]
  split <;> exact ⟨rfl, rfl, rfl⟩

theorem err_kept (err : tunnel.line.st = .err) (shut : Shut tunnel.line) : LineKept tunnel.line (tunnelErr tunnel).line := by
  obtain ⟨opened, timer⟩ := shut err
  obtain ⟨st, alive, id⟩ := err_line _
  exact ⟨st.trans err.symm, alive, opened.symm, timer.symm, id⟩

theorem session_find_iff (table : Table) (sound : TableSound table) (id : UInt32) (addr : Nat) :
    tunnelSessionFind table id = some addr ↔ ∃ tsess, table.heap addr = some tsess ∧ tsess.id = id := by
  constructor
  · exact session_find_live _ sound id addr
  · rintro ⟨tsess, live, rfl⟩
    exact session_find_here _ sound addr _ live

theorem isolated_of_spared (before after : EmsTunnel) (sound : TableSound before.table)
    (next : TableSound after.table) (spared : Spared id before after) : Isolated id before after := by
  refine ⟨spared, fun other apart => Option.ext fun addr => ?_⟩
  rw [session_find_iff _ next, session_find_iff _ sound]
  constructor
  · rintro ⟨tsess, live, rfl⟩
    exact ⟨tsess, (spared.others addr _ apart).mp live, rfl⟩
  · rintro ⟨tsess, live, rfl⟩
    exact ⟨tsess, (spared.others addr _ apart).mpr live, rfl⟩

theorem frame_spared (sound : TableSound tunnel.table)
    (web : pkg.isWeb = true) (fits : ¬ Overrun tunnel pkg) : Spared pkg.id tunnel (tunnelFrame site tunnel pkg) := by
  obtain ⟨ret, spared⟩ := dispatch_spared site _ pkg sound fits
  have dispatched : tunnelDispatcher site _ pkg = tunnelDispatchToWeb site tunnel pkg := if_pos web
  unfold tunnelFrame
  rw [dispatched]
  split <;> rename_i same <;> rw [same] at ret spared
  · rcases ret with ok | slow
    · cases ok
    · cases slow
  · rcases ret with ok | slow
    · cases ok
    · cases slow
  · exact spared_trans _ _ _ _ spared (spared_line _ _ _ (slow_kept _))
  · exact spared

theorem frame_overrun (web : pkg.isWeb = true)
    (overrun : Overrun tunnel pkg) : tunnelFrame site tunnel pkg = tunnelErr tunnel := by
  have dispatched : tunnelDispatcher site _ pkg = tunnelDispatchToWeb site tunnel pkg := if_pos web
  rw [tunnelFrame, dispatched, dispatch_overrun site _ pkg overrun]

theorem overrun_not_isolated (sound : TableSound tunnel.table) (id : UInt32)
    (more : tunnel.line.st ≠ .err ∨ ∃ addr tsess, tunnel.table.heap addr = some tsess ∧ tsess.id ≠ id) :
    ¬ Isolated id tunnel (tunnelErr tunnel) := by
  intro isolated
  rcases more with up | ⟨addr, tsess, live, apart⟩
  · exact up (isolated.line.st.symm.trans (err_line _).1)
  · exact err_dead _ sound addr _ ((isolated.others addr _ apart).mpr live)

theorem run_shut (events : List Event) : Shut (run (step site) EmsTunnel.init events).line := by
  have every := all_steps_of_all (step site) _ EmsTunnel.init events fun _ _ => trivial
  have both := run_keeps _ _ (fun tunnel => TableSound tunnel.table ∧ Shut tunnel.line) EmsTunnel.init _
    ⟨table_sound_init, shut_up _ (nomatch ·)⟩
    (fun tunnel event both _ => ⟨step_sound site _ _ both.1, step_shut site _ _ both.1 both.2⟩) every
  exact both.2

theorem session_isolated_iff (site : Site) (events : List Event) (pkg : Pkg) (web : pkg.isWeb = true) :
    let tunnel := run (step site) EmsTunnel.init events
    Isolated pkg.id tunnel (step site tunnel (.frame pkg)) ↔
      ¬ (tunnel.line.talking = true ∧ Overrun tunnel pkg ∧
        (tunnel.line.st ≠ .err ∨ ∃ addr tsess, tunnel.table.heap addr = some tsess ∧ tsess.id ≠ pkg.id)) := by
  have sound := run_sound site events
  have shut := run_shut site events
  have next := step_sound site _ (.frame pkg) sound
  dsimp only [step] at next ⊢
  generalize run _ _ _ = tunnel at sound shut next ⊢
  by_cases talking : tunnel.line.talking = true
  · rw [if_pos talking] at next ⊢
    by_cases overrun : Overrun tunnel pkg
    · rw [frame_overrun site _ pkg web overrun] at next ⊢
      constructor
      · rintro isolated ⟨_, _, more⟩
        exact overrun_not_isolated _ sound _ more isolated
      · intro fine
        have alone : ¬ (tunnel.line.st ≠ .err ∨ ∃ addr tsess, tunnel.table.heap addr = some tsess ∧ tsess.id ≠ pkg.id) :=
          fun more => fine ⟨talking, overrun, more⟩
        rw [not_or, not_not] at alone
        refine isolated_of_spared _ _ _ sound next ⟨err_kept _ alone.1 shut, rfl, fun addr tsess apart => ?_⟩
        constructor
        · exact fun live => absurd live (err_dead _ sound addr _)
        · exact fun live => absurd ⟨addr, tsess, live, apart⟩ alone.2
    · constructor
      · exact fun _ bad => overrun bad.2.1
      · exact fun _ => isolated_of_spared _ _ _ sound next (frame_spared site _ pkg sound web overrun)
  · rw [if_neg talking] at next ⊢
    constructor
    · exact fun _ bad => talking bad.1
    · exact fun _ => isolated_of_spared _ _ _ sound next (spared_refl _ _)

theorem session_isolated_unknown :
    let tunnel := run (step plainSite) EmsTunnel.init [.start .online 1, .frame ⟨msgTypeWeb, 7, []⟩]
    Isolated 8 tunnel (step plainSite tunnel (.frame ⟨msgTypeWeb, 8, ascii "GET /"⟩)) := by
  have absent : tunnelSessionFind (run (step plainSite) EmsTunnel.init
      [.start .online 1, .frame ⟨msgTypeWeb, 7, []⟩]).table 8 = none := by
    decide +kernel
  apply (session_isolated_iff _ _ ⟨msgTypeWeb, 8, ascii _⟩ (by decide)).mpr
  rintro ⟨_, ⟨_, addr, tsess, found, _⟩, _⟩
  rw [absent] at found
  cases found

def block : Str := List.replicate 2048 120

def crumb : Chunk := ⟨[120], by decide⟩

-- Session 7 gets block after block and sends none of them, while what session 8
-- reads makes the tunnel read again after each slow down.
def clogs : Nat → List Event
  | 0 => [.start .online 1, .frame ⟨msgTypeTunnel, 1, ascii "{}"⟩, .frame ⟨msgTypeWeb, 8, []⟩, .webConnected 0 false,
      .frame ⟨msgTypeWeb, 7, []⟩]
  | count + 1 => clogs count ++ [.webRead 0 crumb, .frame ⟨msgTypeWeb, 7, block⟩]

structure Clogged (tunnel : EmsTunnel) (count : Nat) : Prop where
  sound : TableSound tunnel.table
  line : tunnel.line.alive = true ∧ tunnel.line.st = .normal ∧ tunnel.line.opened = true
  room : tunnel.line.buf.rd = 0 ∧ tunnel.line.buf.size ≤ 3072 + 2048 * count
  other : ∃ tsess, tunnel.table.heap 0 = some tsess ∧ tsess.id = 8 ∧ tsess.st = .normal ∧ tsess.watch = some evtRead
  own : ∃ tsess, tunnel.table.heap 1 = some tsess ∧ tsess.id = 7 ∧ tsess.buf.rd = 0 ∧ tsess.buf.wr = 2048 * count ∧
    tsess.buf.size = 1024 + 2048 * count

theorem clogged_read (few : count ≤ 8) (clogged : Clogged tunnel count) :
    let read := step plainSite tunnel (.webRead 0 crumb)
    read.line.watch = some (evtRead ||| evtWrite) ∧
      (read.line.alive = true ∧ read.line.st = .normal ∧ read.line.opened = true) ∧
      (read.line.buf.rd = 0 ∧ read.line.buf.size ≤ 3072 + 2048 * (count + 1)) ∧
      (∃ tsess, read.table.heap 0 = some tsess ∧ tsess.id = 8 ∧ tsess.st = .normal ∧ tsess.watch = some evtRead) ∧
      read.table.heap 1 = tunnel.table.heap 1 := by
  obtain ⟨item, live, eight, normal, watch⟩ := clogged.other
  obtain ⟨rd, small⟩ := clogged.room
  have room : packRoom tunnel.line.buf 1 ≠ none := by
    rw [packRoom, if_neg (show ¬ tunnel.line.buf.size ≥ 524288 by omega)]
    split <;> exact Option.some_ne_none _
  obtain ⟨ret, buf, watched⟩ := line_pack_fields _ ⟨msgTypeWeb, item.id, [120]⟩ room
  have kept := pack_kept tunnel.line ⟨msgTypeWeb, item.id, [120]⟩
  obtain ⟨start, _, size⟩ := packmsg_numbers _ ⟨msgTypeWeb, item.id, [120]⟩ rd
    (Nat.le_of_ble_eq_true rfl) room
  have low := Buffer.len_le_size tunnel.line.buf
  have fast : (tunnel.line.pack _).1 = .ok := ret.trans (packmsg_fast _ _ room (by omega))
  have whole : step plainSite tunnel (.webRead 0 crumb) = ⟨(tunnel.line.pack ⟨msgTypeWeb, item.id, [120]⟩).2,
      tunnel.table.modify 0 fun tsess => tsess.reading [120], tunnel.run⟩ := by
    have some : ([120] : Str) ≠ [] := List.cons_ne_nil _ _
    have reads : step plainSite tunnel (.webRead 0 crumb) = tsessRead tunnel 0 item [120] := by
      simp only [step, live, if_pos normal]
      rfl
    rw [reads, tsessRead, tsessProcessRsp, if_neg some]
    dsimp only [EmsTunnel.modify, EmsTunnel.pack]
    rw [fast]
  rw [whole]
  dsimp only
  rw [buf, watched, kept.alive, kept.st, kept.opened, clogged.line.2.2, modify_here, live]
  refine ⟨rfl, ⟨clogged.line.1, clogged.line.2.1, rfl⟩, ⟨start, ?_⟩, ⟨_, rfl, eight, normal, watch⟩, ?_⟩
  · rw [size]
    split <;> omega
  · exact modify_other _ _ _ _ (by decide)

theorem block_length : block.length = 2048 := List.length_replicate

theorem clogged_block (few : count < 8) (sound : TableSound tunnel.table)
    (line : tunnel.line.alive = true ∧ tunnel.line.st = .normal ∧ tunnel.line.opened = true)
    (room : tunnel.line.buf.rd = 0 ∧ tunnel.line.buf.size ≤ 3072 + 2048 * (count + 1))
    (other : ∃ tsess, tunnel.table.heap 0 = some tsess ∧ tsess.id = 8 ∧ tsess.st = .normal ∧ tsess.watch = some evtRead)
    (own : ∃ tsess, tunnel.table.heap 1 = some tsess ∧ tsess.id = 7 ∧ tsess.buf.rd = 0 ∧ tsess.buf.wr = 2048 * count ∧
      tsess.buf.size = 1024 + 2048 * count) : Clogged (step plainSite tunnel (.frame ⟨msgTypeWeb, 7, block⟩)) (count + 1) := by
  obtain ⟨item, live, seven, rd, wr, size⟩ := own
  have talking : tunnel.line.talking = true := by simp [Line.talking, line.1, line.2.1]
  have found : tunnelSessionFind _ 7 = some 1 := seven ▸ session_find_here _ sound 1 item live
  have web : (⟨msgTypeWeb, 7, block⟩ : Pkg).isWeb = true := decide_eq_true (by decide)
  have data : ¬ (⟨msgTypeWeb, 7, block⟩ : Pkg).isRst = true := by decide
  have left : item.buf.left = 1024 := by
    have same : item.buf.left = item.buf.size - item.buf.wr := rfl
    omega
  have low : item.buf.left ≤ block.length := by
    rw [left, block_length]
    decide
  have some : ¬ Insufficient item ⟨msgTypeWeb, 7, block⟩ := by
    rintro ⟨_, large⟩
    omega
  have next := step_sound plainSite _ (.frame ⟨msgTypeWeb, 7, block⟩) sound
  have whole : ∃ line, LineKept tunnel.line line ∧ line.buf = tunnel.line.buf ∧
      step plainSite tunnel (.frame ⟨msgTypeWeb, 7, block⟩) =
        ⟨line, tunnel.table.modify 1 fun tsess => tsess.unpack ⟨msgTypeWeb, 7, block⟩, tunnel.run⟩ := by
    have dispatched : tunnelDispatcher plainSite tunnel ⟨msgTypeWeb, 7, block⟩ =
        (if 2048 < (item.buf.increase block.length).len then .slowDown else .ok,
          tunnel.modify 1 fun tsess => tsess.unpack ⟨msgTypeWeb, 7, block⟩) := by
      rw [tunnelDispatcher, if_pos web, tunnelDispatchToWeb, found]
      dsimp only
      rw [if_neg data, tunnelUnpackmsg, live]
      dsimp only
      rw [if_neg some, if_pos low]
    rw [step, if_pos talking, tunnelFrame, dispatched]
    by_cases slow : 2048 < (item.buf.increase block.length).len
    · rw [if_pos slow]
      refine ⟨tunnel.line.slow, slow_kept _, ?_, rfl⟩
      dsimp only [Line.slow]
      split <;> rfl
    · rw [if_neg slow]
      exact ⟨tunnel.line, line_kept_refl _, rfl, rfl⟩
  obtain ⟨after, kept, buf, whole⟩ := whole
  rw [whole] at next ⊢
  have grown := increase_numbers _ rd _ low
  have fits : block.length ≤ (item.buf.increase _).left := increase_left _ _
  have written := write_numbers _ _ fits
  have made : (item.unpack ⟨msgTypeWeb, 7, block⟩).buf = (item.buf.increase block.length).write block := by
    dsimp only [Tsess.unpack]
    rw [if_pos low]
  constructor
  · exact next
  · exact ⟨kept.alive.trans line.1, kept.st.trans line.2.1, kept.opened.trans line.2.2⟩
  · rw [buf]
    exact room
  · obtain ⟨tsess, there, fields⟩ := other
    exact ⟨tsess, (modify_other _ _ _ _ (by decide)).trans there, fields⟩
  · refine ⟨_, (modify_here _ _ _).trans (congrArg _ live), seven, ?_, ?_, ?_⟩
    · rw [made, written.1]
      exact grown.1
    · rw [made, written.2.1, grown.2.1, wr, block_length]
      omega
    · rw [made, written.2.2, grown.2.2, size, block_length]
      omega

theorem clogged_start : Clogged (run (step plainSite) EmsTunnel.init (clogs 0)) 0 ∧
    AllSteps (step plainSite) Reported EmsTunnel.init (clogs 0) := by
  have other : ((run (step plainSite) EmsTunnel.init (clogs 0)).table.heap 0).map
      (fun tsess => (tsess.id, tsess.st, tsess.watch)) = some (8, .normal, some evtRead) := by
    decide +kernel
  have own : ((run (step plainSite) EmsTunnel.init (clogs 0)).table.heap 1).map
      (fun tsess => (tsess.id, tsess.buf.rd, tsess.buf.wr, tsess.buf.size)) = some (7, 0, 0, 1024) := by
    decide +kernel
  obtain ⟨eight, live, fields⟩ := Option.map_eq_some_iff.mp other
  obtain ⟨seven, there, numbers⟩ := Option.map_eq_some_iff.mp own
  simp only [Prod.mk.injEq] at fields numbers
  refine ⟨⟨run_sound _ _, by decide +kernel, by decide +kernel, ⟨eight, live, fields⟩, ⟨seven, there, numbers⟩⟩, ?_⟩
  decide +kernel

theorem clogged_run (few : count ≤ 8) : Clogged (run (step plainSite) EmsTunnel.init (clogs count)) count ∧
    AllSteps (step plainSite) Reported EmsTunnel.init (clogs count) := by
  induction count with
  | zero => exact clogged_start
  | succ count ih =>
    obtain ⟨clogged, reported⟩ := ih (by omega)
    obtain ⟨watch, line, room, other, same⟩ := clogged_read _ _ (by omega) clogged
    have sound := step_sound plainSite _ (.webRead 0 crumb) clogged.sound
    have own := clogged.own
    rw [← same] at own
    obtain ⟨item, live, _, _, watched⟩ := clogged.other
    constructor
    · rw [clogs, run_append]
      exact clogged_block _ _ (by omega) sound line room other own
    · rw [clogs, all_steps_append]
      exact ⟨reported, ⟨item, live, _, watched, by decide⟩, ⟨_, watch, by decide⟩, trivial⟩

theorem clogged_overrun (sound : TableSound tunnel.table) (tsess : Tsess)
    (live : tunnel.table.heap 1 = some tsess) (seven : tsess.id = 7) (wr : tsess.buf.wr = 16384)
    (size : tsess.buf.size = 17408) : Overrun tunnel ⟨msgTypeWeb, 7, block⟩ := by
  have data : (⟨msgTypeWeb, 7, block⟩ : Pkg).isRst = false := by decide
  have left : tsess.buf.left = tsess.buf.size - tsess.buf.wr := rfl
  refine ⟨data, 1, tsess, seven ▸ session_find_here _ sound 1 _ live, live, ?_, ?_⟩
  · rw [left, size, wr]
    exact (block_length ▸ by decide : 17408 - 16384 ≤ block.length)
  · omega

theorem err_stops (sound : TableSound tunnel.table) (id : UInt32) :
    (tunnelErr tunnel).line.st = .err ∧ tunnelSessionFind (tunnelErr tunnel).table id = none := by
  constructor
  · exact (err_line _).1
  · refine Option.eq_none_iff_forall_not_mem.mpr fun addr found => ?_
    have still := stop_all_sound _ sound
    obtain ⟨tsess, live, _⟩ := session_find_live _ still id addr found
    exact err_dead _ sound addr _ live

theorem clogged_stops (events : List Event) (clogged : Clogged (run (step plainSite) EmsTunnel.init events) 8)
    (reported : AllSteps (step plainSite) Reported EmsTunnel.init events) :
    let tunnel := run (step plainSite) EmsTunnel.init (events ++ [.webRead 0 crumb])
    let next := step plainSite tunnel (.frame ⟨msgTypeWeb, 7, block⟩)
    AllSteps (step plainSite) Reported EmsTunnel.init (events ++ [.webRead 0 crumb, .frame ⟨msgTypeWeb, 7, block⟩]) ∧
      (tunnel.line.st = .normal ∧ tunnelSessionFind tunnel.table 8 = some 0) ∧
      (next.line.st = .err ∧ tunnelSessionFind next.table 8 = none) ∧ ¬ Isolated 7 tunnel next := by
  obtain ⟨watch, line, _, ⟨item, live, eight, _⟩, same⟩ := clogged_read _ 8 (Nat.le_refl 8) clogged
  obtain ⟨seven, there, id, _, wr, size⟩ := clogged.own
  obtain ⟨_, first, _, _, watched⟩ := clogged.other
  have sound := step_sound plainSite _ (.webRead 0 crumb) clogged.sound
  have overrun := clogged_overrun _ sound _ (same.trans there) id wr size
  have web : (⟨msgTypeWeb, 7, block⟩ : Pkg).isWeb = true := decide_eq_true (by decide)
  have steps : AllSteps (step plainSite) Reported EmsTunnel.init
      (events ++ [.webRead 0 crumb, .frame ⟨msgTypeWeb, 7, block⟩]) := by
    rw [all_steps_append]
    exact ⟨reported, ⟨_, first, _, watched, by decide⟩, ⟨_, watch, by decide⟩, trivial⟩
  have last : run (step plainSite) EmsTunnel.init (events ++ [.webRead 0 crumb]) =
      step plainSite (run (step plainSite) EmsTunnel.init events) (.webRead 0 crumb) := by
    rw [run_append, run_cons, run_nil]
  rw [last]
  generalize step _ _ _ = read at *
  have talking : read.line.talking = true := by simp [Line.talking, line.1, line.2.1]
  have stops : step plainSite read (.frame ⟨msgTypeWeb, 7, block⟩) = tunnelErr read := by
    rw [step, if_pos talking]
    exact frame_overrun _ read _ web overrun
  have up : read.line.st ≠ .err := by
    rw [line.2.1]
    rintro ⟨⟩
  dsimp only
  rw [stops]
  refine ⟨steps, ⟨line.2.1, eight ▸ session_find_here _ sound 0 item live⟩, err_stops read sound 8, ?_⟩
  exact overrun_not_isolated read sound 7 (.inl up)

theorem full_session_stops_all :
    let tunnel := run (step plainSite) EmsTunnel.init (clogs 8 ++ [.webRead 0 crumb])
    let next := step plainSite tunnel (.frame ⟨msgTypeWeb, 7, block⟩)
    AllSteps (step plainSite) Reported EmsTunnel.init (clogs 8 ++ [.webRead 0 crumb, .frame ⟨msgTypeWeb, 7, block⟩]) ∧
      (tunnel.line.st = .normal ∧ tunnelSessionFind tunnel.table 8 = some 0) ∧
      (next.line.st = .err ∧ tunnelSessionFind next.table 8 = none) ∧ ¬ Isolated 7 tunnel next := by
  obtain ⟨clogged, reported⟩ := clogged_run 8 (Nat.le_refl 8)
  exact clogged_stops _ clogged reported

end Codec.Tunnel
