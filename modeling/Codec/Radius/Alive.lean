import Codec.Radius.DeviceSpec
import Codec.Radius.Module

set_option autoImplicit false

namespace Codec.Radius

open Codec.Ems Codec.Lib

def Alive (cell : Cell) : Prop := cell.dev ≠ none

def Never (_ : Fault) (_ : Cell) : Prop := False

def Steady {α : Type} (body : Handle α) : Prop := Handler.Triple Alive body (fun _ => Alive) Never

def Final {α : Type} (body : Handle α) : Prop := Handler.Triple Alive body (fun _ _ => True) Never

variable {α : Type} (env : Env) (which : Which) (st : Status) (event : DevEvent) (stream : List Recv) (dev : Device) (sh : Shared)

theorem steady_pure (value : α) : Steady (pure value) := Handler.triple_pure _ _ _ _ fun _ alive => alive

theorem steady_get : Steady getDev := by
  intro cell alive
  obtain ⟨entry, sh⟩ := cell
  cases entry with
  | none => exact absurd rfl alive
  | some dev => exact alive

theorem steady_set (change : Device → Device) : Steady (setDev change) := by
  intro cell alive
  obtain ⟨entry, sh⟩ := cell
  cases entry with
  | none => exact absurd rfl alive
  | some dev => exact fun gone => nomatch gone

theorem steady_get_shared : Steady getShared := fun _ alive => alive

theorem steady_set_shared (change : Shared → Shared) : Steady (setShared change) := fun _ alive => alive

theorem steady_bind {α β : Type} (first : Handle α) (next : α → Handle β) (head : Steady first)
    (tail : ∀ value, Steady (next value)) : Steady (first >>= next) :=
  Handler.triple_bind _ _ next _ _ _ head tail

theorem steady_ite (test : Prop) [Decidable test] (yes no : Handle α) (whenYes : Steady yes)
    (whenNo : Steady no) : Steady (if test then yes else no) :=
  Handler.triple_ite _ test yes no _ _ (fun _ => whenYes) fun _ => whenNo

theorem final_steady (body : Handle α) (steady : Steady body) : Final body :=
  Handler.triple_weaken _ _ body _ _ _ _ steady (fun _ alive => alive) (fun _ _ _ => trivial)
    fun _ _ never => never

theorem final_bind {α β : Type} (first : Handle α) (next : α → Handle β) (head : Steady first)
    (tail : ∀ value, Final (next value)) : Final (first >>= next) :=
  Handler.triple_bind _ _ next _ _ _ head tail

theorem final_ite (test : Prop) [Decidable test] (yes no : Handle α) (whenYes : Final yes)
    (whenNo : Final no) : Final (if test then yes else no) :=
  Handler.triple_ite _ test yes no _ _ (fun _ => whenYes) fun _ => whenNo

theorem final_value {α β : Type} (first : Handle α) (value : β) (head : Final first) :
    Final (do let _ ← first; pure value) :=
  Handler.triple_bind _ _ _ _ _ _ head fun _ _ _ => trivial

theorem steady_portal (cmd : PortalCmd) (errorCode : Int) : Steady (raSendPortal cmd errorCode) :=
  steady_bind _ _ steady_get fun _ => steady_set_shared _

theorem steady_firewall (set : Bool) : Steady (raDeviceFirewallSetRules set) :=
  steady_bind _ _ steady_get fun _ => steady_set_shared _

theorem final_destroy : Final emsDeviceDestroy := final_bind _ _ steady_get fun _ _ _ => trivial

theorem steady_enter (into : Handle Ret) (steady : Steady into) : Steady (enter st into) :=
  steady_bind _ _ steady_get fun _ => steady_ite _ _ _ (steady_pure _) (steady_bind _ _ (steady_set _) fun _ => steady)

theorem final_enter (into : Handle Ret) (final : Final into) : Final (enter st into) :=
  final_bind _ _ steady_get fun _ => final_ite _ _ _ (final_steady _ (steady_pure _))
    (final_bind _ _ (steady_set _) fun _ => final)

theorem final_change_err : Final changeErr := by
  refine final_enter .err _ ?_
  refine final_bind _ _ steady_get fun dev => ?_
  refine final_bind _ _ (steady_set_shared _) fun _ => ?_
  refine final_bind _ _ (steady_set _) fun _ => ?_
  refine final_bind _ _ steady_get fun now => ?_
  refine final_bind _ _ (steady_portal _ _) fun _ => ?_
  refine final_bind _ _ (steady_firewall _) fun _ => ?_
  exact final_value _ _ final_destroy

theorem steady_fill_acct : Steady raFillAcctInfo :=
  steady_bind _ _ steady_get fun _ => steady_bind _ _ steady_get_shared fun _ =>
    steady_bind _ _ (steady_set_shared _) fun _ => steady_set _

theorem steady_arm_retry : Steady raArmRetry := steady_bind _ _ steady_get_shared fun _ => steady_set _

theorem steady_change_acct : Steady changeAcct := by
  refine steady_enter _ _ ?_
  exact steady_bind _ _ steady_fill_acct fun _ => steady_bind _ _ steady_arm_retry fun _ => steady_pure _

theorem final_change_acct_stop : Final changeAcctStop := by
  refine final_enter _ _ ?_
  have fill : Steady stIntoAcctStopFill :=
    steady_bind _ _ (steady_set _) fun _ => steady_bind _ _ steady_fill_acct fun _ => steady_arm_retry
  have tell : Final (do
      let dev ← getDev
      raSendPortal .logout dev.reason
      raDeviceFirewallSetRules false
      if dev.reason ≠ 2 then changeErr else pure .ok) := by
    refine final_bind _ _ steady_get fun now => ?_
    refine final_bind _ _ (steady_portal _ _) fun _ => ?_
    refine final_bind _ _ (steady_firewall _) fun _ => ?_
    exact final_ite _ _ _ final_change_err (final_steady _ (steady_pure _))
  refine final_bind _ _ steady_get fun dev => ?_
  exact final_ite _ _ _ tell (final_bind _ _ fill fun _ => tell)

theorem steady_change_normal : Steady changeNormal := steady_enter _ _ (steady_pure _)

theorem final_change_start : Final (changeStart env) := by
  refine final_enter _ _ ?_
  refine final_bind _ _ (steady_set _) fun _ => ?_
  refine final_ite _ _ _ ?_ (final_bind _ _ (steady_set _) fun _ => final_change_err)
  have fill : Steady raFillAuthRequestInfo :=
    steady_bind _ _ steady_get_shared fun _ => steady_bind _ _ (steady_set_shared _) fun _ => steady_set _
  refine final_bind _ _ (steady_set _) fun _ => ?_
  refine final_bind _ _ fill fun _ => ?_
  refine final_bind _ _ steady_arm_retry fun _ => ?_
  refine final_bind _ _ (steady_set _) fun _ => ?_
  exact final_steady _ (steady_enter _ _ (steady_pure _))

theorem final_fail_err (reason : Int) : Final (raFailErr reason) := final_bind _ _ (steady_set _) fun _ => final_change_err

theorem final_fail_acct_stop (reason : Int) : Final (raFailAcctStop reason) :=
  final_bind _ _ (steady_set _) fun _ => final_change_acct_stop

theorem final_lost_user (cause : Int) : Final (raLostUser cause) :=
  final_bind _ _ (steady_set _) fun _ => final_change_acct_stop

theorem final_stop_dev : Final radiusStopDev :=
  final_bind _ _ (steady_set _) fun _ => final_bind _ _ steady_get fun _ =>
    final_ite _ _ _ final_change_acct_stop (final_steady _ (steady_pure _))

theorem final_reauth (name pass : Str) : Final (radiusReauth env name pass) :=
  final_bind _ _ (steady_set _) fun _ => final_change_start env

theorem steady_change_hb_send : Steady stIntoPingSend :=
  steady_bind _ _ (steady_set _) fun _ => steady_bind _ _ (steady_set _) fun _ => steady_pure _

theorem final_change_hb : Final (changeHb env) := by
  refine final_enter .hb _ (final_value _ _ ?_)
  have prepare : Steady (stPingPrepareSess env) :=
    steady_bind _ _ (steady_set _) fun _ => steady_bind _ _ (steady_set _) fun _ =>
      steady_bind _ _ (steady_set _) fun _ => steady_ite _ _ _
        (steady_bind _ _ (steady_set _) fun _ => steady_pure _) (steady_pure _)
  refine final_bind _ _ steady_get fun dev => ?_
  refine final_ite _ _ _ ?_ (final_steady _ steady_change_hb_send)
  refine final_bind _ _ prepare fun ret => ?_
  exact final_ite _ _ _ (final_bind _ _ (steady_set _) fun _ => final_change_acct_stop)
    (final_steady _ steady_change_hb_send)

theorem steady_send_msg (result : Send) : Steady (raSendMsg which result) := by
  refine steady_bind _ _ steady_get fun dev => ?_
  refine steady_ite _ _ _ ?_ (steady_pure _)
  cases result with
  | sent => exact steady_bind _ _ (steady_set_shared _) fun _ => steady_bind _ _ (steady_set _) fun _ => steady_pure _
  | again => exact steady_pure _
  | failed => exact steady_bind _ _ (steady_set _) fun _ => steady_pure _

theorem steady_retry_connect : Steady raRetryConnectServer :=
  steady_bind _ _ steady_get fun _ => steady_bind _ _ (steady_set _) fun _ => steady_ite _ _ _
    (steady_bind _ _ steady_get_shared fun _ => steady_bind _ _ (steady_set _) fun _ => steady_change_normal)
    (steady_pure _)

theorem final_acct_err_out : Final raAcctErrOut :=
  final_bind _ _ steady_retry_connect fun _ =>
    final_ite _ _ _ (final_value _ _ (final_fail_acct_stop _)) (final_steady _ (steady_pure _))

theorem final_send (result : Send) (fail : Handle Ret) (final : Final fail) : Final (do
      let ret ← raSendMsg which result
      if ret ≠ .ok then fail else pure .ok) :=
  final_bind _ _ (steady_send_msg _ _) fun _ => final_ite _ _ _ final (final_steady _ (steady_pure _))

theorem steady_count_down : Steady raCountDown :=
  steady_bind _ _ (steady_set _) fun _ => steady_bind _ _ steady_get fun _ => steady_pure _

theorem steady_resend : Steady (do raResend which; pure Ret.ok) := steady_bind _ _ (steady_set _) fun _ => steady_pure _

theorem final_timeout : Final (devTimeoutRun env which st) := by
  have again : Final _ := final_steady _ (steady_resend which)
  cases st with
  | auth => exact final_bind _ _ steady_count_down fun _ => final_ite _ _ _ again (final_fail_err _)
  | acctStop => exact final_bind _ _ steady_count_down fun _ => final_ite _ _ _ again (final_fail_err _)
  | acct =>
    refine final_bind _ _ steady_count_down fun _ => final_ite _ _ _ again ?_
    exact final_bind _ _ steady_retry_connect fun _ =>
      final_ite _ _ _ (final_fail_acct_stop _) (final_steady _ (steady_pure _))
  | normal => exact final_change_hb env
  | hb =>
    refine final_bind _ _ steady_get fun dev => ?_
    refine final_ite _ _ _ (final_bind _ _ (steady_set _) fun _ => again) ?_
    refine final_bind _ _ (steady_set _) fun _ => final_bind _ _ steady_get fun now => ?_
    refine final_ite _ _ _ (final_lost_user 2) ?_
    exact final_steady _ (steady_bind _ _ (steady_set _) fun _ => steady_bind _ _ (steady_set _) fun _ =>
      steady_change_acct)
  | start => exact final_steady _ (steady_pure _)
  | err => exact final_steady _ (steady_pure _)
  | stopped => exact final_steady _ (steady_pure _)

theorem steady_ping_handle : Steady (raPingRecvHandle which) := by
  refine steady_bind _ _ steady_get fun dev => ?_
  cases icmpKind _ _ with
  | short => exact steady_pure _
  | other => exact steady_bind _ _ (steady_set _) fun _ => steady_pure _
  | reply =>
    exact steady_bind _ _ steady_get_shared fun _ => steady_bind _ _ (steady_set _) fun _ =>
      steady_bind _ _ (steady_set _) fun _ => steady_bind _ _ (steady_set _) fun _ => steady_change_acct

theorem steady_ping_loop (start room : Nat) (stream : List Recv) : Steady (raPingRecvLoop which start room stream) := by
  induction stream with
  | nil => exact steady_pure _
  | cons first rest ih =>
    cases first with
    | again => exact steady_pure _
    | failed => exact steady_pure _
    | data bytes =>
      refine steady_ite _ _ _ (steady_pure _) ?_
      exact steady_bind _ _ (steady_set _) fun _ => steady_bind _ _ (steady_ping_handle _) fun _ => ih

theorem final_ping : Final (raPing which event) := by
  cases event with
  | read stream =>
    have received : Steady (raPingRecv _ _) := steady_bind _ _ steady_get fun _ => steady_ping_loop which _ _ stream
    exact final_bind _ _ received fun _ => final_ite _ _ _ (final_lost_user 2) (final_steady _ (steady_pure _))
  | write result => exact final_send _ _ _ (final_lost_user 2)
  | error => exact final_steady _ (steady_pure _)
  | timeout => exact final_steady _ (steady_pure _)

def OnlySpins (why : Fault) (_ : Cell) : Prop := why = .spinning

def Spares (pre : Cell → Prop) (body : Handle Ret) : Prop := Handler.Triple pre body (fun _ _ => True) OnlySpins

theorem spares_final (pre : Cell → Prop) (body : Handle Ret) (final : Final body)
    (alive : ∀ cell, pre cell → Alive cell) : Spares pre body :=
  Handler.triple_weaken pre _ body _ _ _ _ final alive (fun _ _ _ => trivial) fun _ _ never => never.elim

theorem spares_recv (handle : UInt8 → Handle Ret) (stream : List Recv) (fail : Handle Ret)
    (keeps : Cell → Prop) (contract : RecvContract env which handle keeps OnlySpins)
    (alive : ∀ cell, keeps cell → Alive cell) (final : Final fail) : Spares keeps (do
      let ret ← raRecvMsg env which handle stream
      if ret ≠ .ok then fail else pure .ok) := by
  refine Handler.triple_bind _ _ _ _ _ _
    (recv_msg_triple env _ _ _ _ contract _) fun ret => ?_
  refine Handler.triple_ite _ _ _ _ _ _ (fun _ => spares_final _ fail final alive) fun _ => ?_
  exact fun _ _ => trivial

theorem steady_contract (handle : UInt8 → Handle Ret) (steady : ∀ code, Steady (handle code)) :
    RecvContract env which handle Alive OnlySpins where
  quiet _ _ _ _ := fun gone => nomatch gone
  rsp code dev sh _ _ := by
    refine Handler.triple_weaken _ _ _ _ _ _ _ (steady code) ?_ (fun _ _ alive => alive)
      fun _ _ never => never.elim
    intro cell here
    rw [here]
    exact fun gone => nomatch gone
  gone _ alive := absurd rfl alive
  spin _ _ := rfl

theorem spares_auth_read (old : dev.st = .auth) (fresh : Fresh ⟨some dev, sh⟩)
    (accepts : ∀ code, Replies env dev sh code → code = pwAccessAccept ∧ env.connect = true) :
    Spares (fun cell => cell = ⟨some dev, sh⟩) (raAuth env which (.read stream)) := by
  -- Once the Accept was taken the packet is a new one that nobody can have
  -- answered yet.
  let keeps := fun cell : Cell => ∃ now, cell.dev = some now ∧
    ((now.st = .auth ∧ now.authOut = dev.authOut ∧ cell.sh = sh) ∨
      ∀ request, now.authOut = some request → request ∉ cell.sh.wire)
  have contract : RecvContract env which (raAuthRsp env which) keeps OnlySpins := by
    refine ⟨?_, ?_, ?_, fun _ _ => rfl⟩
    · intro now after sess holds
      obtain ⟨_, same, phase⟩ := holds
      cases same
      exact ⟨_, rfl, by simpa only [set_session_st, set_session_auth_out] using phase⟩
    · intro code now after holds replies cell here
      obtain ⟨_, same, phase⟩ := holds
      obtain ⟨request, bytes, packet, sent, listed, first⟩ := replies
      cases same
      cases here
      rcases phase with ⟨st, kept, shared⟩ | unsent
      · cases shared
        obtain ⟨accept, connect⟩ := accepts code ⟨request, bytes, kept ▸ packet, sent, listed, first⟩
        obtain ⟨next, final, run, serial, wired, _⟩ := accept_spec env _ now _ connect st
        rw [accept, run]
        refine ⟨next, rfl, .inr fun packet' fill onWire => ?_⟩
        rw [fill] at serial
        exact absurd (Option.some.inj serial) (Nat.ne_of_lt (fresh.wire _ (wired ▸ onWire)))
      · exact absurd sent (unsent _ packet)
    · intro after holds
      obtain ⟨_, same, _⟩ := holds
      cases same
  have alive : ∀ cell, keeps cell → Alive cell := by
    intro cell holds gone
    obtain ⟨now, same, _⟩ := holds
    rw [gone] at same
    cases same
  have spares := spares_recv env _ _ stream (raFailErr errNetwork) _ contract alive (final_fail_err _)
  intro cell here
  cases here
  exact spares _ ⟨dev, rfl, .inl ⟨old, rfl, rfl⟩⟩

theorem spares_acct_read (old : dev.st = .acct) (sound : Sound dev) :
    Spares (fun cell => cell = ⟨some dev, sh⟩) (raAcct env which (.read stream)) := by
  let keeps := fun cell : Cell => ∃ now, cell.dev = some now ∧ Sound now ∧
    (now.st = .acct ∨ now.st = .normal ∨ now.st = .acctStop ∧ now.reason = 2)
  have contract : RecvContract env which raAcctRsp keeps OnlySpins := by
    refine ⟨?_, ?_, ?_, fun _ _ => rfl⟩
    · intro now after sess holds
      obtain ⟨_, same, sound, phase⟩ := holds
      cases same
      cases which <;> exact ⟨_, rfl, { sound with }, phase⟩
    · intro code now after holds _ cell here
      obtain ⟨_, same, sound, phase⟩ := holds
      cases same
      cases here
      obtain ⟨next, final, run, path, outcome⟩ := acct_rsp_path (fun _ => True) _ now _ code sound
        Relation.ReflTransGen.refl trivial (phase.imp_right (Or.imp_right And.left)) (fun _ => trivial)
        (fun stop => by
          rcases phase with acct | normal | stopping
          · simp [acct] at stop
          · simp [normal] at stop
          · exact ⟨trivial, stopping.2⟩) (fun _ => trivial)
      rw [run]
      refine ⟨next, rfl, path_sound _ _ _ path (fun _ same => by cases same; exact sound) next rfl, ?_⟩
      rcases outcome with ⟨_, st, _⟩ | ⟨_, st, reason⟩
      · exact .inr (.inl st)
      · exact .inr (.inr ⟨st, reason⟩)
    · intro after holds
      obtain ⟨_, same, _⟩ := holds
      cases same
  have alive : ∀ cell, keeps cell → Alive cell := by
    intro cell holds gone
    obtain ⟨now, same, _⟩ := holds
    rw [gone] at same
    cases same
  have spares := spares_recv env _ _ stream _ _ contract alive final_acct_err_out
  intro cell here
  cases here
  exact spares _ ⟨dev, rfl, sound, .inl old⟩

theorem spares_acct_stop_read (silent : ∀ code, ¬Replies env dev sh code) :
    Spares (fun cell => cell = ⟨some dev, sh⟩) (raAcctStopped env which (.read stream)) := by
  let keeps := fun cell : Cell => ∃ now, cell.dev = some now ∧ now.authOut = dev.authOut ∧ cell.sh = sh
  have contract : RecvContract env which raAcctStoppedRsp keeps OnlySpins := by
    refine ⟨?_, ?_, ?_, fun _ _ => rfl⟩
    · intro now after sess holds
      obtain ⟨_, same, kept, shared⟩ := holds
      cases same
      exact ⟨_, rfl, (set_session_auth_out now _ sess).trans kept, shared⟩
    · intro code now after holds replies
      obtain ⟨_, same, kept, shared⟩ := holds
      obtain ⟨request, bytes, packet, sent, listed, first⟩ := replies
      cases same
      cases shared
      exact absurd ⟨request, bytes, kept ▸ packet, sent, listed, first⟩ (silent code)
    · intro after holds
      obtain ⟨_, same, _⟩ := holds
      cases same
  have alive : ∀ cell, keeps cell → Alive cell := by
    intro cell holds gone
    obtain ⟨now, same, _⟩ := holds
    rw [gone] at same
    cases same
  have spares := spares_recv env _ _ stream (raFailErr errNetwork) _ contract alive (final_fail_err _)
  intro cell here
  cases here
  exact spares _ ⟨dev, rfl, rfl, rfl⟩

theorem spares_normal : Spares Alive (raNormal env which event) := by
  cases event with
  | read stream =>
    exact spares_recv env _ _ _ _ _
      (steady_contract env _ _ fun _ => steady_pure _) (fun _ alive => alive) (final_fail_acct_stop _)
  | write result => exact fun _ _ => trivial
  | error => exact fun _ _ => trivial
  | timeout => exact fun _ _ => trivial

def Survives (env : Env) (event : DevEvent) (dev : Device) (sh : Shared) : Prop :=
  match event, dev.st with
  | .read _, .auth => ∀ code, Replies env dev sh code → code = pwAccessAccept ∧ env.connect = true
  | .read _, .acctStop => ∀ code, ¬Replies env dev sh code
  | _, _ => True

theorem spares_event (sound : Sound dev) (fresh : Fresh ⟨some dev, sh⟩) (survives : Survives env event dev sh) :
    Spares (fun cell => cell = ⟨some dev, sh⟩) (devEvtCb env which event) := by
  have alive : ∀ cell : Cell, cell = ⟨some dev, sh⟩ → Alive cell := by
    intro cell here gone
    rw [here] at gone
    cases gone
  have found : ∀ body : Device → Handle Ret, Spares (fun cell => cell = ⟨some dev, sh⟩) (body dev) →
      Spares (fun cell => cell = ⟨some dev, sh⟩) (getDev >>= body) := by
    intro body spares cell here
    cases here
    exact spares _ rfl
  refine found _ ?_
  cases event with
  | error => exact spares_final _ _ (final_fail_err _) alive
  | timeout => exact spares_final _ _ (final_timeout env _ _) alive
  | read stream =>
    cases st : dev.st with
    | auth =>
      simp only [Survives, st] at survives
      exact spares_auth_read env _ _ dev sh st fresh survives
    | acct => exact spares_acct_read env _ _ dev sh st sound
    | normal =>
      intro cell here
      exact spares_normal env _ (.read _) cell (alive cell here)
    | hb => exact spares_final _ _ (final_ping _ (.read _)) alive
    | acctStop =>
      simp only [Survives, st] at survives
      exact spares_acct_stop_read env _ _ dev sh survives
    | start => exact absurd st sound.begun.2
    | stopped => exact absurd st sound.begun.1
    | err => exact absurd st sound.live
  | write result =>
    cases st : dev.st with
    | auth => exact spares_final _ _ (final_send _ _ _ (final_fail_err _)) alive
    | acct => exact spares_final _ _ (final_send _ _ _ final_acct_err_out) alive
    | normal => exact fun _ _ => trivial
    | hb => exact spares_final _ _ (final_ping _ (.write _)) alive
    | acctStop => exact spares_final _ _ (final_send _ _ _ (final_fail_err _)) alive
    | start => exact absurd st sound.begun.2
    | stopped => exact absurd st sound.begun.1
    | err => exact absurd st sound.live

end Codec.Radius
