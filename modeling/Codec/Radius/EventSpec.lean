import Codec.Radius.StatusSpec

set_option autoImplicit false

namespace Codec.Radius

open Codec.Ems Codec.Lib

def SendFails (dev : Device) (which : Which) (result : Send) : Prop :=
  ¬((dev.session which).opened = true ∧ (dev.session which).unsent = true) ∨ result = .failed

variable (env : Env) (which : Which) (dev : Device) (sh : Shared) (allowed : Label → Prop) (reason : Int) (start : Cell)

theorem send_msg_spec (result : Send) (dev : Device) (sh : Shared) : (¬SendFails dev which result ∧ ∃ label next after,
        raSendMsg which result ⟨some dev, sh⟩ = (.done .ok, ⟨some next, after⟩) ∧
        (label = .keep ∨ label = .send) ∧ Move label ⟨some dev, sh⟩ ⟨some next, after⟩) ∨
      (SendFails dev which result ∧ ∃ next, raSendMsg which result ⟨some dev, sh⟩ = (.done .err, ⟨some next, sh⟩) ∧
        Keep dev next ∧ next.st = dev.st ∧ next.disconnectServer = dev.disconnectServer) := by
  simp only [raSendMsg, Handler.bind_apply, get_dev_some]
  by_cases ready : (dev.session which).opened = true ∧ (dev.session which).unsent = true
  · simp only [if_pos ready]
    cases result with
    | sent =>
      refine .inl ⟨by simp [SendFails, ready], ?_⟩
      cases which with
      | radius =>
        exact ⟨.send, _, _, rfl, .inr rfl, .send dev _ sh _ (keep_set_session dev _ _)
          (set_session_st dev _ _) rfl⟩
      | ping =>
        exact ⟨.keep, _, _, rfl, .inl rfl, .keep dev _ sh _ (keep_set_session dev _ _)
          (set_session_st dev _ _) (frame_refl sh)⟩
    | again =>
      refine .inl ⟨by simp [SendFails, ready], ?_⟩
      exact ⟨.keep, _, _, rfl, .inl rfl, .keep dev dev sh sh (keep_refl dev) rfl (frame_refl sh)⟩
    | failed =>
      right
      refine ⟨.inr rfl, _, rfl, keep_set_session dev _ _, set_session_st dev _ _, ?_⟩
      cases which <;> rfl
  · simp only [if_neg ready]
    exact .inr ⟨.inl ready, dev, rfl, keep_refl dev, rfl, rfl⟩

theorem fail_err_path (dev : Device) (sh : Shared)
    (live : dev.st ≠ .err) (path : Path allowed start ⟨some dev, sh⟩) (drop : allowed .drop) :
    Path allowed start (raFailErr reason ⟨some dev, sh⟩).2 := by
  rw [fail_err_eq _ dev sh live]
  exact path_snoc _ _ _ _ _ path drop (drop_move dev _ sh rfl rfl)

theorem change_acct_stop_leaves (dev prior : Device) (sh : Shared) (touch : Touch dev prior) (st : prior.st = dev.st)
    (active : prior.st ≠ .acctStop) (network : prior.reason ≠ errNetwork) (connect : prior.reason ≠ errCannotConnect) :
    ∃ next after, changeAcctStop ⟨some prior, sh⟩ = (.done .ok, ⟨some next, after⟩) ∧
      Move .leave ⟨some dev, sh⟩ ⟨some next, after⟩ :=
  ⟨_, _, change_acct_stop_eq _ sh active network connect, leave_move dev _ sh touch (st ▸ active)⟩

theorem lost_user_spec (cause : Int) (dev : Device) (sh : Shared) (sound : Sound dev) (active : dev.st ≠ .acctStop) :
    ∃ next after, raLostUser cause ⟨some dev, sh⟩ = (.done .ok, ⟨some next, after⟩) ∧
      Move .leave ⟨some dev, sh⟩ ⟨some next, after⟩ :=
  change_acct_stop_leaves dev _ sh ⟨rfl, rfl, rfl, rfl, rfl, rfl⟩ rfl active
    (sound.fine active).1 (sound.fine active).2

theorem fail_acct_stop_path (dev : Device) (sh : Shared)
    (lost : reason = errNetwork ∨ reason = errCannotConnect) (path : Path allowed start ⟨some dev, sh⟩)
    (keep : allowed .keep) (abandon : allowed .abandon) (drop : allowed .drop) :
    Path allowed start (raFailAcctStop reason ⟨some dev, sh⟩).2 := by
  have run : raFailAcctStop reason ⟨some dev, sh⟩ = changeAcctStop ⟨some _, sh⟩ := rfl
  rw [run]
  by_cases stopping : dev.st = .acctStop
  · rw [change_acct_stop_same { dev with reason := reason } sh stopping]
    exact path_snoc _ _ _ _ _ path keep
      (.keep dev _ sh sh ⟨⟨rfl, rfl, rfl, rfl, rfl, rfl⟩, fun active => absurd stopping active⟩ rfl (frame_refl sh))
  · rw [change_acct_stop_lost { dev with reason := reason } sh stopping lost]
    have left := path_snoc _ _ _ _ _ path abandon
      (abandon_move dev { dev with reason := reason } sh ⟨rfl, rfl, rfl, rfl, rfl, rfl⟩ stopping)
    exact path_snoc _ _ _ _ _ left drop (drop_move _ _ _ rfl rfl)

theorem change_normal_path (dev prior : Device) (sh : Shared) (touch : Touch dev prior) (reason : prior.reason = dev.reason)
    (path : Path allowed start ⟨some dev, sh⟩) (keep : allowed .keep)
    (handled : dev.st = .acct ∨ dev.st = .normal ∨ dev.st = .acctStop) (settle : dev.st = .acct → allowed .settle)
    (revive : dev.st = .acctStop → allowed .revive ∧ dev.reason = 2) :
    changeNormal ⟨some prior, sh⟩ = (.done .ok, ⟨some { prior with st := .normal }, sh⟩) ∧
      Path allowed start ⟨some { prior with st := .normal }, sh⟩ := by
  have run : changeNormal ⟨some prior, sh⟩ = (.done .ok, ⟨some { prior with st := .normal }, sh⟩) := by
    rcases change_normal_eq _ sh with moved | ⟨same, stayed⟩
    · exact moved
    · rw [stayed, ← same]
  refine ⟨run, ?_⟩
  have kept : Keep dev { prior with st := .normal } := ⟨{ touch with }, fun _ => reason⟩
  rcases handled with acct | normal | stop
  · exact path_snoc _ _ _ _ _ path (settle acct) (.settle dev _ sh sh kept acct rfl (frame_refl sh))
  · exact path_snoc _ _ _ _ _ path keep (.keep dev _ sh sh kept normal.symm (frame_refl sh))
  · obtain ⟨listed, fine⟩ := revive stop
    exact path_snoc _ _ _ _ _ path listed
      (.revive dev _ sh sh kept stop (reason.trans fine) rfl (frame_refl sh))

theorem retry_connect_eq : raRetryConnectServer ⟨some dev, sh⟩ = if dev.disconnectServer > 0 then
        changeNormal ⟨some { dev with
          disconnectServer := dev.disconnectServer - 1, reportPeriod := sh.ra.reportPeriod }, sh⟩
      else (.done .err, ⟨some { dev with disconnectServer := dev.disconnectServer - 1 }, sh⟩) := by
  simp only [raRetryConnectServer, Handler.bind_apply, get_dev_some, set_dev_some, Handler.ite_apply, get_shared_apply,
    Handler.pure_apply]

theorem retry_connect_path (dev : Device) (sh : Shared) (lost : reason = errNetwork ∨ reason = errCannotConnect)
    (path : Path allowed start ⟨some dev, sh⟩) (keep : allowed .keep) (abandon : allowed .abandon) (drop : allowed .drop)
    (handled : dev.st = .acct ∨ dev.st = .normal ∨ dev.st = .acctStop)
    (settle : dev.st = .acct → dev.disconnectServer > 0 → allowed .settle)
    (revive : dev.st = .acctStop → allowed .revive ∧ dev.reason = 2) : Path allowed start ((do
      let ret ← raRetryConnectServer
      if ret ≠ .ok then raFailAcctStop reason else pure .ok : Handle Ret) ⟨some dev, sh⟩).2 := by
  rw [Handler.bind_apply, retry_connect_eq]
  by_cases more : dev.disconnectServer > 0
  · obtain ⟨run, settled⟩ := change_normal_path _ _ dev
      { dev with disconnectServer := dev.disconnectServer - 1, reportPeriod := sh.ra.reportPeriod } sh
      ⟨rfl, rfl, rfl, rfl, rfl, rfl⟩ rfl path keep handled (fun acct => settle acct more) revive
    rw [if_pos more, run]
    exact settled
  · rw [if_neg more]
    have touched := path_snoc _ _ _ _ _ path keep
      (.keep dev { dev with disconnectServer := dev.disconnectServer - 1 } sh sh
        ⟨⟨rfl, rfl, rfl, rfl, rfl, rfl⟩, fun _ => rfl⟩ rfl (frame_refl sh))
    exact fail_acct_stop_path _ _ _ _ sh lost touched keep abandon drop

def Device.connected (dev : Device) (which : Which) : Device :=
  { ({ dev with accepted := true, vpOut := [], authOut := none }.setSession which
      ⟨true, (dev.session which).bufIn.clear, false⟩) with reason := 1 }

def Shared.opened (sh : Shared) (dev : Device) : Shared :=
  { sh with
    ra := { sh.ra with lasterr := 0 }
    fw := dev.fwSet sh.fw true
    portal := sh.portal ++ [⟨.authRsp, dev.name, dev.ip, dev.mac, 0⟩] }

theorem accept_eq (connect : env.connect = true) : raAuthRsp env which pwAccessAccept ⟨some dev, sh⟩ =
      changeAcct ⟨some (dev.connected which), sh.opened dev⟩ := by
  simp only [raAuthRsp, if_true, raStartToAcctUser, raConnectToAcctServer, connect, Handler.bind_apply, set_dev_some,
    openSession, set_shared_apply, raSendPortal, get_dev_some, raDeviceFirewallSetRules]
  cases which <;> rfl

theorem accept_spec (connect : env.connect = true) (old : dev.st = .auth) :
    ∃ next after, raAuthRsp env which pwAccessAccept ⟨some dev, sh⟩ = (.done .ok, ⟨some next, after⟩) ∧
      next.authOut.map Request.serial = some sh.serial ∧ after.wire = sh.wire ∧
      Move .accept ⟨some dev, sh⟩ ⟨some next, after⟩ := by
  have st : (dev.connected which).st = .auth := by cases which <;> exact old
  have other : (dev.connected which).st ≠ .acct := by rw [st]; decide
  refine ⟨{ dev.connected which with st := .acct }.acctFilled (sh.opened dev),
    (sh.opened dev).acctFilled (dev.connected which), ?_, rfl, rfl, ?_⟩
  · rw [accept_eq env _ dev sh connect, change_acct_eq _ _ other]
  · refine .accept dev _ sh _ (acctRequest (dev.connected which) (sh.opened dev)) old rfl ?_ ?_ rfl
    · cases which <;> rfl
    · cases which <;> exact ⟨rfl, rfl, rfl, rfl, rfl, rfl, rfl, rfl, rfl, rfl, rfl, rfl, rfl⟩

theorem accept_lost (connect : env.connect = false) (live : dev.st ≠ .err) :
    ∃ after, raAuthRsp env which pwAccessAccept ⟨some dev, sh⟩ = (.done .ok, ⟨none, after⟩) ∧
      Move .drop ⟨some dev, sh⟩ ⟨none, after⟩ := by
  have run : raAuthRsp env which pwAccessAccept ⟨some dev, sh⟩ = changeErr
      ⟨some { ({ dev with accepted := true, vpOut := [], authOut := none }.setSession which
        ⟨false, (dev.session which).bufIn.clear, false⟩) with reason := errNetwork }, sh⟩ := by
    simp only [raAuthRsp, if_true, raStartToAcctUser, raConnectToAcctServer, connect, Handler.bind_apply, set_dev_some]
    cases which <;> rfl
  rw [run, change_err_eq _ _ (by cases which <;> exact live)]
  refine ⟨_, rfl, drop_move dev _ sh ?_ ?_⟩ <;> cases which <;> rfl

theorem reject_spec (code : UInt8) (dev : Device) (sh : Shared) (other : code ≠ pwAccessAccept) (live : dev.st ≠ .err) :
    ∃ after, raAuthRsp env which code ⟨some dev, sh⟩ = (.done .ok, ⟨none, after⟩) ∧
      Move .drop ⟨some dev, sh⟩ ⟨none, after⟩ := by
  have close : ∀ reason, changeErr _ =
      (.done .ok, ⟨none, sh.dropped _⟩) :=
    fun reason => change_err_eq { dev with reason := reason } sh live
  unfold raAuthRsp
  rw [if_neg other]
  split
  · refine ⟨_, ?_, drop_move dev { dev with reason := code.toNat } sh rfl rfl⟩
    simp only [Handler.bind_apply, set_dev_some, close, Handler.pure_apply]
  · refine ⟨_, ?_, drop_move dev { dev with reason := errReject } sh rfl rfl⟩
    simp only [Handler.bind_apply, set_dev_some, close, Handler.pure_apply]

theorem acct_rsp_path (dev : Device) (sh : Shared) (code : UInt8)
    (sound : Sound dev) (path : Path allowed start ⟨some dev, sh⟩) (keep : allowed .keep)
    (handled : dev.st = .acct ∨ dev.st = .normal ∨ dev.st = .acctStop) (settle : dev.st = .acct → allowed .settle)
    (revive : dev.st = .acctStop → allowed .revive ∧ dev.reason = 2) (leave : code ≠ pwAccountingResponse → allowed .leave) :
    ∃ next after, raAcctRsp code ⟨some dev, sh⟩ = (.done .ok, ⟨some next, after⟩) ∧ Path allowed start ⟨some next, after⟩ ∧
      ((code = pwAccountingResponse ∧ next.st = .normal ∧ next.authOut = dev.authOut ∧ after = sh) ∨
        (code ≠ pwAccountingResponse ∧ next.st = .acctStop ∧ next.reason = 2)) := by
  unfold raAcctRsp
  by_cases usual : code = pwAccountingResponse
  · obtain ⟨run, settled⟩ := change_normal_path _ _ dev { dev with reportPeriod := sh.ra.reportPeriod } sh
      ⟨rfl, rfl, rfl, rfl, rfl, rfl⟩ rfl path keep handled settle revive
    have counted := path_snoc _ _ _ _ _ settled keep
      (.keep _ { dev with
        reportPeriod := sh.ra.reportPeriod, st := .normal, disconnectServer := reportRounds sh.ra } sh sh
        ⟨⟨rfl, rfl, rfl, rfl, rfl, rfl⟩, fun _ => rfl⟩ rfl (frame_refl sh))
    refine ⟨_, sh, ?_, counted, .inl ⟨usual, rfl, rfl, rfl⟩⟩
    simp only [if_pos usual, Handler.bind_apply, get_shared_apply, set_dev_some, run, Handler.pure_apply]
  · rw [if_neg usual]
    by_cases stopping : dev.st = .acctStop
    · have run : raLostUser 6 ⟨some dev, sh⟩ = (.done .ok, ⟨some _, sh⟩) :=
        change_acct_stop_same _ sh stopping
      have touched := path_snoc _ _ _ _ _ path keep
        (.keep dev { dev with err := 6 } sh sh ⟨⟨rfl, rfl, rfl, rfl, rfl, rfl⟩, fun _ => rfl⟩ rfl (frame_refl sh))
      refine ⟨{ dev with err := 6 }, sh, ?_, touched, .inr ⟨usual, stopping, (revive stopping).2⟩⟩
      simp only [Handler.bind_apply, run, Handler.pure_apply]
    · obtain ⟨next, after, run, move⟩ := lost_user_spec 6 dev sh sound stopping
      refine ⟨next, after, ?_, path_snoc _ _ _ _ _ path (leave usual) move, .inr ⟨usual, ?_, ?_⟩⟩
      · simp only [Handler.bind_apply, run, Handler.pure_apply]
      · cases move with
        | leave _ _ _ _ _ _ new _ _ _ => exact new
      · cases move with
        | leave _ _ _ _ _ _ _ _ begins _ => exact begins.reason

end Codec.Radius
