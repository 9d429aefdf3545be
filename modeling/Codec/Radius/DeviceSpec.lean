import Codec.Radius.EventPath

set_option autoImplicit false

namespace Codec.Radius

open Codec.Ems Codec.Lib

variable (env : Env) (allowed : Label → Prop) (which : Which) (dev : Device) (sh : Shared)

theorem send_then (result : Send) (fail : Handle Ret) (dev : Device)
    (sh : Shared) (keep : allowed .keep) (send : ¬SendFails dev which result → allowed .send)
    (bad : ∀ next, SendFails dev which result → Keep dev next → next.st = dev.st →
      next.disconnectServer = dev.disconnectServer →
      Path allowed ⟨some dev, sh⟩ ⟨some next, sh⟩ → Path allowed ⟨some dev, sh⟩ (fail ⟨some next, sh⟩).2) :
    Path allowed ⟨some dev, sh⟩ ((do
      let ret ← raSendMsg which result
      if ret ≠ .ok then fail else pure .ok : Handle Ret) ⟨some dev, sh⟩).2 := by
  rw [Handler.bind_apply]
  rcases send_msg_spec _ _ dev sh with
    ⟨good, label, next, after, run, kind, move⟩ | ⟨fails, next, run, same, st, dsrv⟩
  · rw [run]
    have listed : allowed label := by
      rcases kind with rfl | rfl
      · exact keep
      · exact send good
    exact path_one _ _ _ _ listed move
  · rw [run]
    exact bad next fails same st dsrv (path_one _ _ _ _ keep (.keep dev next sh sh same st (frame_refl sh)))

theorem write_path (result : Send) (dev : Device) (sh : Shared) (sound : Sound dev) :
    Path (Allowed env which (.write result) dev sh) ⟨some dev, sh⟩
      (devEvtRun env which (.write result) dev.st ⟨some dev, sh⟩).2 := by
  have start : SoundCell ⟨some dev, sh⟩ := by
    intro found same
    cases same
    exact sound
  cases st : dev.st with
  | auth =>
    have drop : Allowed env which (.write result) dev sh .drop := by simp [Allowed, st]
    refine send_then _ _ _ _ dev sh (by simp [Allowed, st]) (by simp [Allowed, st]) ?_
    intro next _ _ same _ path
    exact fail_err_path _ _ _ next sh (by rw [same, st]; decide) path drop
  | acctStop =>
    have drop : Allowed env which (.write result) dev sh .drop := by simp [Allowed, st]
    refine send_then _ _ _ _ dev sh (by simp [Allowed, st]) (by simp [Allowed, st]) ?_
    intro next _ _ same _ path
    exact fail_err_path _ _ _ next sh (by rw [same, st]; decide) path drop
  | acct =>
    refine send_then _ _ _ _ dev sh (by simp [Allowed, st]) (by simp [Allowed, st]) ?_
    intro next fails kept same dsrv path
    rw [acct_err_out_state]
    refine retry_connect_path _ _ _ next sh (.inl rfl) path (by simp [Allowed, st]) (by simp [Allowed, st])
      (by simp [Allowed, st]) (.inl (same.trans st)) ?_ fun stop => by simp [same, st] at stop
    intro _ more
    rw [dsrv] at more
    simp [Allowed, st, fails, more]
  | normal => exact Relation.ReflTransGen.refl
  | hb =>
    refine send_then _ _ _ _ dev sh (by simp [Allowed, st])
      (fun good => by simp [Allowed, st, good]) ?_
    intro next fails _ same _ path
    have leave : Allowed env which (.write result) dev sh .leave := by simp [Allowed, st, fails]
    have active : next.st ≠ .acctStop := by rw [same, st]; decide
    obtain ⟨final, last, gone, move⟩ := lost_user_spec 2 next sh (path_sound _ _ _ path start next rfl) active
    rw [gone]
    exact path_snoc _ _ _ _ _ path leave move
  | start => exact absurd st sound.begun.2
  | stopped => exact absurd st sound.begun.1
  | err => exact absurd st sound.live

theorem read_path (stream : List Recv) (dev : Device) (sh : Shared) (sound : Sound dev) (fresh : Fresh ⟨some dev, sh⟩) :
    Path (Allowed env which (.read stream) dev sh) ⟨some dev, sh⟩
      (devEvtRun env which (.read stream) dev.st ⟨some dev, sh⟩).2 := by
  cases st : dev.st with
  | auth => exact auth_read_path env _ _ dev sh st fresh
  | acct => exact acct_read_path env _ _ dev sh st sound
  | normal => exact normal_read_path env _ _ dev sh st
  | hb => exact hb_read_path env _ _ dev sh st sound
  | acctStop => exact acct_stop_read_path env _ _ dev sh st
  | start => exact absurd st sound.begun.2
  | stopped => exact absurd st sound.begun.1
  | err => exact absurd st sound.live

theorem count_down_path (again : Int → Prop) [DecidablePred again]
    (fail : Handle Ret) (dev : Device) (sh : Shared) (keep : allowed .keep) (bad : ¬again (dev.retryTimes - 1) →
      Path allowed ⟨some dev, sh⟩ ⟨some { dev with retryTimes := dev.retryTimes - 1 }, sh⟩ →
      Path allowed ⟨some dev, sh⟩ (fail ⟨some { dev with retryTimes := dev.retryTimes - 1 }, sh⟩).2) :
    Path allowed ⟨some dev, sh⟩ ((do
      let left ← raCountDown
      if again left then do
        raResend which
        pure .ok
      else fail : Handle Ret) ⟨some dev, sh⟩).2 := by
  have counted : Path _ _ ⟨some { dev with retryTimes := dev.retryTimes - 1 }, sh⟩ :=
    path_one _ _ _ _ keep
      (.keep dev _ sh sh ⟨⟨rfl, rfl, rfl, rfl, rfl, rfl⟩, fun _ => rfl⟩ rfl (frame_refl sh))
  simp only [raCountDown, Handler.bind_apply, set_dev_some, get_dev_some, Handler.pure_apply]
  by_cases more : again (dev.retryTimes - 1)
  · rw [if_pos more]
    exact path_snoc _ _ _ _ _ counted keep
      (.keep _ _ sh sh (keep_set_session _ _ _) (set_session_st _ _ _) (frame_refl sh))
  · rw [if_neg more]
    exact bad more counted

def Device.prepared (dev : Device) (env : Env) : Device :=
  { dev with
    sessDev := some { dev.session .ping with bufIn := (dev.session .ping).bufIn.clear, unsent := false }
    ident := env.ident % 65536
    ntrans := 0
    echoOut := none }

theorem ping_prepare_eq : stPingPrepareSess env ⟨some dev, sh⟩ = if env.pingConnect = true then
        (.done .ok, ⟨some ((dev.prepared env).setSession .ping { (dev.prepared env).session .ping with opened := true }), sh⟩)
      else (.done .err, ⟨some (dev.prepared env), sh⟩) := by
  simp only [stPingPrepareSess, Handler.bind_apply, set_dev_some, Handler.ite_apply, openSession, Handler.pure_apply]
  rfl

theorem st_into_ping_path (start : Cell) (dev : Device) (sh : Shared)
    (hb : dev.st = .hb) (path : Path allowed start ⟨some dev, sh⟩) (keep : allowed .keep)
    (leave : dev.sessDev = none → env.pingConnect = false → allowed .leave) :
    Path allowed start (stIntoPing env ⟨some dev, sh⟩).2 := by
  have sent : ∀ now : Device, Keep dev now → now.st = dev.st →
      Path allowed start (stIntoPingSend ⟨some now, sh⟩).2 := by
    intro now same st
    exact path_snoc _ _ _ _ _ path keep
      (.keep dev _ sh sh ⟨{ same with }, same.reason⟩ st
        (frame_refl sh))
  unfold stIntoPing
  rw [Handler.bind_done getDev _ _ _ dev rfl]
  by_cases bare : dev.sessDev = none
  · rw [if_pos bare, Handler.bind_apply, ping_prepare_eq]
    by_cases connect : env.pingConnect = true
    · rw [if_pos connect]
      exact sent _ ⟨⟨rfl, rfl, rfl, rfl, rfl, rfl⟩, fun _ => rfl⟩ rfl
    · rw [if_neg connect]
      have active : dev.st ≠ .acctStop := by rw [hb]; decide
      obtain ⟨next, after, run, move⟩ := change_acct_stop_leaves dev { dev.prepared env with err := 2, reason := 2 } sh
        ⟨rfl, rfl, rfl, rfl, rfl, rfl⟩ rfl active (show (2 : Int) ≠ errNetwork by decide)
        (show (2 : Int) ≠ errCannotConnect by decide)
      have left := path_snoc _ _ _ _ _ path (leave bare (by simpa using connect)) move
      have reached : (⟨some next, after⟩ : Cell) =
          (changeAcctStop ⟨some { dev.prepared env with err := 2, reason := 2 }, sh⟩).2 := by rw [run]
      rw [reached] at left
      exact left
  · rw [if_neg bare]
    exact sent dev (keep_refl dev) rfl

theorem change_hb_path (normal : dev.st = .normal) (keep : allowed .keep) (probe : allowed .probe)
    (leave : dev.sessDev = none → env.pingConnect = false → allowed .leave) :
    Path allowed ⟨some dev, sh⟩ (changeHb env ⟨some dev, sh⟩).2 := by
  have other : dev.st ≠ .hb := by rw [normal]; decide
  have moved : Path allowed ⟨some dev, sh⟩ ⟨some { dev with st := .hb, accepted := dev.accepted && true && true }, sh⟩ := by
    refine path_one _ _ _ _ probe (.probe dev _ sh sh ⟨⟨rfl, rfl, rfl, ?_, rfl, rfl⟩, fun _ => rfl⟩ normal rfl
      (frame_refl sh))
    simp
  have entered : (changeHb env ⟨some dev, sh⟩).2 = (stIntoPing env
      ⟨some { dev with st := .hb, accepted := dev.accepted && true && true }, sh⟩).2 := by
    unfold changeHb enter
    rw [Handler.bind_done getDev _ _ _ dev rfl, if_neg other]
    exact bind_pure_state _ _ _
  rw [entered]
  exact st_into_ping_path env _ _ _ sh rfl moved keep leave

theorem to_ping_path (st : dev.st = .hb) (sound : Sound dev) :
    Path (Allowed env which .timeout dev sh) ⟨some dev, sh⟩ (raToPing which ⟨some dev, sh⟩).2 := by
  have keep : Allowed env which .timeout dev sh .keep := by simp [Allowed, st]
  unfold raToPing
  rw [Handler.bind_done getDev _ _ _ dev rfl]
  by_cases more : dev.retryTimes > 0
  · rw [if_pos more]
    have counted : Path _ _
        ⟨some { dev with retryTimes := dev.retryTimes - 1 }, sh⟩ :=
      path_one _ _ _ _ keep
        (.keep dev _ sh sh ⟨⟨rfl, rfl, rfl, rfl, rfl, rfl⟩, fun _ => rfl⟩ rfl (frame_refl sh))
    exact path_snoc _ _ _ _ _ counted keep
      (.keep _ _ sh sh (keep_set_session _ _ _) (set_session_st _ _ _) (frame_refl sh))
  · rw [if_neg more]
    have spent : dev.retryTimes ≤ 0 := by omega
    have leave : Allowed env which .timeout dev sh .leave := by simp [Allowed, st, spent]
    have interim : Allowed env which .timeout dev sh .interim := by simp [Allowed, st, spent]
    simp only [Handler.bind_apply, set_dev_some, get_dev_some]
    by_cases lost : dev.disconnect - 1 ≤ 0
    · rw [if_pos lost]
      have counted : Path _ _
          ⟨some { dev with disconnect := dev.disconnect - 1 }, sh⟩ :=
        path_one _ _ _ _ keep
          (.keep dev _ sh sh ⟨⟨rfl, rfl, rfl, rfl, rfl, rfl⟩, fun _ => rfl⟩ rfl (frame_refl sh))
      obtain ⟨next, after, run, move⟩ := lost_user_spec 2 { dev with disconnect := dev.disconnect - 1 } sh
        { sound with } (by rw [st]; decide)
      rw [run]
      exact path_snoc _ _ _ _ _ counted leave move
    · rw [if_neg lost]
      obtain ⟨next, after, run, path, _⟩ := change_acct_interim _ _ dev
        { ({ dev with disconnect := dev.disconnect - 1 }.setSession which
            { ({ dev with disconnect := dev.disconnect - 1 } : Device).session which with
              bufIn := (({ dev with disconnect := dev.disconnect - 1 } : Device).session which).bufIn.clear }) with
          reason := 3 } sh
        (by cases which <;> exact ⟨rfl, rfl, rfl, rfl, rfl, rfl⟩) (by cases which <;> rfl) rfl
        ⟨.inl st, fun acct => by simp [st] at acct⟩ Relation.ReflTransGen.refl keep interim
      have reached : (⟨some next, after⟩ : Cell) = _ := (congrArg Prod.snd run).symm
      rw [reached] at path
      exact path

theorem timeout_path (sound : Sound dev) :
    Path (Allowed env which .timeout dev sh) ⟨some dev, sh⟩ (devTimeoutRun env which dev.st ⟨some dev, sh⟩).2 := by
  cases st : dev.st with
  | auth =>
    have drop : Allowed env which .timeout dev sh .drop := by simp [Allowed, st]
    refine count_down_path _ _ _ _ dev sh (by simp [Allowed, st]) ?_
    intro _ path
    exact fail_err_path _ _ _ _ sh (by rw [st]; decide) path drop
  | acctStop =>
    have drop : Allowed env which .timeout dev sh .drop := by simp [Allowed, st]
    refine count_down_path _ _ _ _ dev sh (by simp [Allowed, st]) ?_
    intro _ path
    exact fail_err_path _ _ _ _ sh (by rw [st]; decide) path drop
  | acct =>
    refine count_down_path _ _ _ _ dev sh (by simp [Allowed, st]) ?_
    intro done path
    refine retry_connect_path _ _ _ _ sh (.inr rfl) path (by simp [Allowed, st])
      (by simp [Allowed, st]) (by simp [Allowed, st]) (.inl st) ?_ fun stop => by simp [st] at stop
    intro _ more
    have last : dev.retryTimes ≤ 1 := by omega
    simp [Allowed, st, last, more]
  | normal =>
    exact change_hb_path env _ dev sh st (by simp [Allowed, st]) (by simp [Allowed, st])
      fun bare refused => by simp [Allowed, st, bare, refused]
  | hb => exact to_ping_path env _ dev sh st sound
  | start => exact absurd st sound.begun.2
  | stopped => exact absurd st sound.begun.1
  | err => exact absurd st sound.live

theorem device_event_path (event : DevEvent) (dev : Device) (sh : Shared) (sound : Sound dev) (fresh : Fresh ⟨some dev, sh⟩) :
    Path (Allowed env which event dev sh) ⟨some dev, sh⟩ (devEvtCb env which event ⟨some dev, sh⟩).2 := by
  unfold devEvtCb
  rw [Handler.bind_done getDev _ _ _ dev rfl]
  cases event with
  | error =>
    refine fail_err_path _ _ _ dev sh sound.live Relation.ReflTransGen.refl ?_
    cases st : dev.st <;> simp [Allowed]
  | read stream => exact read_path env _ _ dev sh sound fresh
  | write result => exact write_path env _ _ dev sh sound
  | timeout => exact timeout_path env _ dev sh sound

end Codec.Radius
