import Codec.Radius.Moves

set_option autoImplicit false

namespace Codec.Radius

open Codec.Ems Codec.Lib

def Shared.dropped (sh : Shared) (dev : Device) : Shared :=
  { sh with
    ra := { sh.ra with lasterr := dev.reason }
    fw := dev.fwSet sh.fw false
    portal := sh.portal ++ [⟨.authRsp, dev.name, dev.ip, dev.mac, if dev.reason = 0 then 4 else dev.reason⟩] }

def Shared.acctFilled (sh : Shared) (dev : Device) : Shared :=
  { sh.filled with clock := if dev.sessid = none then sh.clock + 1 else sh.clock }

def Device.acctFilled (dev : Device) (sh : Shared) : Device :=
  { dev.fill (acctRequest dev sh) with
    sessid := (acctRequest dev sh).sessid
    retryTimes := sh.ra.retryTimes
    retryTimeout := sh.ra.retryTimeout }

def Shared.loggedOut (sh : Shared) (dev : Device) : Shared :=
  { sh with
    fw := dev.fwSet sh.fw false
    portal := sh.portal ++ [⟨.logout, dev.name, dev.ip, dev.mac, dev.reason⟩] }

def Device.atStop (dev : Device) (reason : Int) : Device := { dev with st := .acctStop, accepted := false, reason := reason }

variable (dev : Device) (which : Which) (sess : Session) (sh : Shared)

theorem change_err_eq (live : dev.st ≠ .err) : changeErr ⟨some dev, sh⟩ = (.done .ok, ⟨none, sh.dropped dev⟩) := by
  simp only [changeErr, enter, Handler.bind_apply, get_dev_some, if_neg live, set_dev_some, raErr, set_shared_apply,
    raSendPortal, raDeviceFirewallSetRules, emsDeviceDestroy, Handler.pure_apply]
  rfl

theorem change_acct_eq (other : dev.st ≠ .acct) : changeAcct ⟨some dev, sh⟩ =
      (.done .ok, ⟨some ({ dev with st := .acct }.acctFilled sh), sh.acctFilled dev⟩) := by
  simp only [changeAcct, enter, Handler.bind_apply, get_dev_some, if_neg other, set_dev_some, stIntoAcct, raFillAcctInfo,
    get_shared_apply, set_shared_apply, raArmRetry, Handler.pure_apply]
  simp [Device.acctFilled, Device.fill, acctRequest, Shared.acctFilled, Shared.filled]

theorem change_acct_same (same : dev.st = .acct) : changeAcct ⟨some dev, sh⟩ = (.done .ok, ⟨some dev, sh⟩) := by
  simp only [changeAcct, enter, Handler.bind_apply, get_dev_some, if_pos same, Handler.pure_apply]

theorem change_acct_stop_same (same : dev.st = .acctStop) : changeAcctStop ⟨some dev, sh⟩ = (.done .ok, ⟨some dev, sh⟩) := by
  simp only [changeAcctStop, enter, Handler.bind_apply, get_dev_some, if_pos same, Handler.pure_apply]

theorem change_acct_stop_eq (active : dev.st ≠ .acctStop)
    (network : dev.reason ≠ errNetwork) (connect : dev.reason ≠ errCannotConnect) : changeAcctStop ⟨some dev, sh⟩ =
      (.done .ok, ⟨some ((dev.atStop 2).acctFilled sh), (sh.acctFilled dev).loggedOut (dev.atStop 2)⟩) := by
  have fine : ¬(dev.reason = errNetwork ∨ dev.reason = errCannotConnect) := by
    rintro (bad | bad)
    · exact network bad
    · exact connect bad
  simp only [changeAcctStop, enter, Handler.bind_apply, get_dev_some, if_neg active, set_dev_some, stIntoAcctStop,
    if_neg fine, stIntoAcctStopFill, raFillAcctInfo, get_shared_apply, set_shared_apply, raArmRetry, raSendPortal,
    raDeviceFirewallSetRules]
  simp [Device.acctFilled, Device.fill, acctRequest, Shared.acctFilled, Shared.filled, Shared.loggedOut, Device.atStop,
    Device.fwSet]

-- With a network error for a reason the Stop is skipped and the device goes
-- on to st_err at once; its rule has been deleted twice then.
theorem change_acct_stop_lost (active : dev.st ≠ .acctStop) (lost : dev.reason = errNetwork ∨ dev.reason = errCannotConnect) :
    changeAcctStop ⟨some dev, sh⟩ = (.done .ok, ⟨none, (sh.loggedOut dev).dropped (dev.atStop dev.reason)⟩) := by
  have other : dev.reason ≠ 2 := by
    rcases lost with bad | bad
    · rw [bad]; decide
    · rw [bad]; decide
  unfold changeAcctStop
  simp only [enter, Handler.bind_apply, get_dev_some, if_neg active, set_dev_some, stIntoAcctStop, if_pos lost,
    raSendPortal, set_shared_apply, raDeviceFirewallSetRules, ne_eq, if_pos other]
  exact change_err_eq _ _ (by simp)

theorem change_normal_eq : changeNormal ⟨some dev, sh⟩ = (.done .ok, ⟨some { dev with st := .normal }, sh⟩) ∨
      (dev.st = .normal ∧ changeNormal ⟨some dev, sh⟩ = (.done .ok, ⟨some dev, sh⟩)) := by
  by_cases same : dev.st = .normal
  · right
    refine ⟨same, ?_⟩
    simp only [changeNormal, enter, Handler.bind_apply, get_dev_some, if_pos same, Handler.pure_apply]
  · left
    simp only [changeNormal, enter, Handler.bind_apply, get_dev_some, if_neg same, set_dev_some, Handler.pure_apply]
    simp

theorem fail_err_eq (reason : Int) (dev : Device) (sh : Shared) (live : dev.st ≠ .err) :
    raFailErr reason ⟨some dev, sh⟩ = (.done .ok, ⟨none, sh.dropped { dev with reason := reason }⟩) := by
  exact change_err_eq _ sh live

theorem begins_filled (status : Int) (dev prior next : Device) (sh after : Shared) (touch : Touch dev prior)
    (reason : prior.reason = status) (same : Touch (prior.acctFilled sh) next)
    (kept : next.reason = prior.reason) (wire : after.wire = sh.wire) (clock : after.clock = (sh.acctFilled prior).clock)
    (serial : after.serial = sh.serial + 1) : Begins status dev sh next after (acctRequest prior sh) where
  id := same.id.trans touch.id
  ip := same.ip.trans touch.ip
  mac := same.mac.trans touch.mac
  authOut := same.authOut
  sessid := by rw [same.sessid, ← touch.sessid]; rfl
  reason := kept.trans reason
  serial := rfl
  code := rfl
  session := by rw [← touch.sessid]; rfl
  statusType := reason
  wire := wire
  clock := by rw [clock, ← touch.sessid]; rfl
  nextSerial := serial

theorem leave_move (dev prior : Device) (sh : Shared) (touch : Touch dev prior) (active : dev.st ≠ .acctStop) :
    Move .leave ⟨some dev, sh⟩ ⟨some ((prior.atStop 2).acctFilled sh), (sh.acctFilled prior).loggedOut (prior.atStop 2)⟩ := by
  have accepted : Touch { dev with accepted := false } (prior.atStop 2) :=
    ⟨touch.id, touch.ip, touch.mac, rfl, touch.sessid, touch.authOut⟩
  refine .leave dev _ sh _ (acctRequest (prior.atStop 2) sh) active rfl rfl ?_ ?_
  · have begins := begins_filled 2 _ _ _ sh
      ((sh.acctFilled _).loggedOut (prior.atStop 2)) accepted rfl (touch_refl _) rfl rfl rfl rfl
    exact { begins with }
  · exact touch_fw_set _ _ accepted _ _

theorem abandon_move (dev prior : Device) (sh : Shared) (touch : Touch dev prior) (active : dev.st ≠ .acctStop) :
    Move .abandon ⟨some dev, sh⟩ ⟨some (prior.atStop prior.reason), sh.loggedOut prior⟩ :=
  .abandon dev _ sh _ active rfl rfl ⟨touch.id, touch.ip, touch.mac, rfl, touch.sessid, touch.authOut⟩
    ⟨touch_fw_set dev _ touch _ _, rfl, rfl, rfl⟩

theorem drop_move (dev prior : Device) (sh : Shared) (ip : prior.ip = dev.ip) (mac : prior.mac = dev.mac) :
    Move .drop ⟨some dev, sh⟩ ⟨none, sh.dropped prior⟩ := by
  refine .drop dev sh _ ⟨?_, rfl, rfl, rfl⟩
  rw [Shared.dropped, Device.fwSet, Device.fwSet, ip, mac]

def Replies (env : Env) (dev : Device) (sh : Shared) (code : UInt8) : Prop :=
  ∃ request bytes, dev.authOut = some request ∧ request ∈ sh.wire ∧ (bytes, request.serial) ∈ env.replies ∧
    bytes.getD 0 0 = code

@[simp] theorem set_session_auth_out : (dev.setSession which sess).authOut = dev.authOut := by cases which <;> rfl

@[simp] theorem set_session_st : (dev.setSession which sess).st = dev.st := by cases which <;> rfl

theorem keep_set_session : Keep dev (dev.setSession which sess) := by
  cases which <;> exact ⟨⟨rfl, rfl, rfl, rfl, rfl, rfl⟩, fun _ => rfl⟩

theorem check_reply_true (env : Env) (dev : Device) (sh : Shared) (buf : Buffer)
    (passed : (rcCheckReply env sh dev.authOut buf).1 = true) : Replies env dev sh (buf.content.getD 0 0) := by
  unfold rcCheckReply at passed
  cases packet : dev.authOut with
  | none => simp [packet] at passed
  | some request =>
    rw [packet] at passed
    by_cases header : rcCheckHeader buf.content buf.size sh.ra.secret request = true
    · simp only [header, if_true, digestHolds, decide_eq_true_eq] at passed
      refine ⟨request, _, packet, passed.2, passed.1, ?_⟩
      simp only [rcCheckHeader, decide_eq_true_eq] at header
      cases content : buf.content with
      | nil => simp
      | cons first rest =>
        rw [content] at header
        obtain ⟨length, more⟩ := Nat.exists_eq_succ_of_ne_zero (by omega : be16 (first :: rest) 2 ≠ 0)
        rw [more, List.take_succ_cons]
        rfl
    · simp [header] at passed

structure RecvContract (env : Env) (which : Which) (handle : UInt8 → Handle Ret) (keeps : Cell → Prop)
    (cut : Fault → Cell → Prop) : Prop where
  quiet : ∀ dev sh sess, keeps ⟨some dev, sh⟩ → keeps ⟨some (dev.setSession which sess), sh⟩
  rsp : ∀ code dev sh, keeps ⟨some dev, sh⟩ → Replies env dev sh code →
    Handler.Triple (fun cell => cell = ⟨some dev, sh⟩) (handle code) (fun _ => keeps) cut
  gone : ∀ sh, keeps ⟨none, sh⟩ → cut .dangling ⟨none, sh⟩
  spin : ∀ cell, keeps cell → cut .spinning cell

section Contract

variable (env : Env) (which : Which) (handle : UInt8 → Handle Ret) (keeps : Cell → Prop) (cut : Fault → Cell → Prop)

section

variable (contract : RecvContract env which handle keeps cut)

include contract

theorem set_session_triple (change : Device → Session) :
    Handler.Triple keeps (setDev fun dev => dev.setSession which (change dev)) (fun _ => keeps) cut := by
  rintro ⟨entry, sh⟩ holds
  cases entry with
  | none => exact contract.gone sh holds
  | some dev => exact contract.quiet dev sh _ holds

theorem get_dev_triple :
    Handler.Triple keeps getDev (fun _ => keeps) cut := by
  rintro ⟨entry, sh⟩ holds
  cases entry with
  | none => exact contract.gone sh holds
  | some dev => exact holds

theorem process_rsp_triple :
    Handler.Triple keeps (devProcessRsp env which handle) (fun _ => keeps) cut := by
  rintro ⟨entry, sh⟩ holds
  cases entry with
  | none => exact contract.gone sh holds
  | some dev =>
    simp only [devProcessRsp, Handler.bind_apply, get_dev_some, get_shared_apply, setBufIn, set_dev_some]
    by_cases passed : (rcCheckReply env sh dev.authOut (dev.session which).bufIn).1 = true
    · simp only [if_pos passed]
      have replies := check_reply_true env dev sh _ passed
      have rsp := contract.rsp _ _ sh (contract.quiet dev sh { dev.session which with
        bufIn := (rcCheckReply env sh dev.authOut (dev.session which).bufIn).2 } holds)
        (by simpa only [Replies, set_session_auth_out] using replies) _ rfl
      rw [Handler.bind_apply]
      cases ran : handle _ _ with
      | mk outcome reached =>
        rw [ran] at rsp
        cases outcome with
        | done value => exact rsp
        | fault why => exact rsp
    · simp only [if_neg passed]
      exact contract.quiet dev sh _ holds

theorem preprocess_triple :
    Handler.Triple keeps (devPreprocess env which handle) (fun _ => keeps) cut := by
  refine Handler.triple_bind _ _ _ _ _ cut
    (get_dev_triple env _ _ _ cut contract) ?_
  intro dev
  have wait : ∀ ret : Ret, Handler.Triple _ _ (fun _ => keeps) cut :=
    fun ret => Handler.triple_pure _ ret _ cut fun _ fine => fine
  refine Handler.triple_ite _ _ _ _ _ cut (fun _ => wait _) fun _ => ?_
  refine Handler.triple_ite _ _ _ _ _ cut (fun _ => wait _) fun _ => ?_
  refine Handler.triple_ite _ _ _ _ _ cut (fun _ => wait _) fun _ => ?_
  refine Handler.triple_bind _ _ _ _ _ cut
    (process_rsp_triple env _ _ _ cut contract) ?_
  intro ret
  exact Handler.triple_bind _ _ _ _ _ cut
    (set_session_triple env _ _ _ cut contract _) fun _ => wait ret

theorem drain_triple (fuel : Nat) :
    Handler.Triple keeps (raDrain env which handle fuel) (fun _ => keeps) cut := by
  induction fuel with
  | zero => exact fun cell holds => contract.spin cell holds
  | succ fuel ih =>
    refine Handler.triple_bind _ _ _ _ _ cut
      (preprocess_triple env _ _ _ cut contract) ?_
    intro ret
    cases ret with
    | ok => exact ih
    | err => exact Handler.triple_pure _ _ _ cut fun _ fine => fine
    | again => exact Handler.triple_pure _ _ _ cut fun _ fine => fine
    | insufficient => exact Handler.triple_pure _ _ _ cut fun _ fine => fine

theorem recv_loop_triple (fuel : Nat) (stream : List Recv) :
    Handler.Triple keeps (raRecvLoop env which handle fuel stream) (fun _ => keeps) cut := by
  induction fuel generalizing stream with
  | zero => exact fun cell holds => contract.spin cell holds
  | succ fuel ih =>
    refine Handler.triple_bind _ _ _ _ _ cut
      (get_dev_triple env _ _ _ cut contract) ?_
    intro dev
    refine Handler.triple_bind _ _ _ _ _ cut
      (set_session_triple env _ _ _ cut contract _) fun _ => ?_
    refine Handler.triple_ite _ _ _ _ _ cut
      (fun _ => preprocess_triple env _ _ _ cut contract) fun _ => ?_
    refine Handler.triple_bind _ _ _ _ _ cut
      (drain_triple env _ _ _ cut contract _) ?_
    intro ret
    have leave : ∀ ret : Ret, Handler.Triple _ _ (fun _ => keeps) cut :=
      fun ret => Handler.triple_pure _ ret _ cut fun _ fine => fine
    refine Handler.triple_ite _ _ _ _ _ cut (fun _ => leave .err) fun _ => ?_
    exact Handler.triple_ite _ _ _ _ _ cut (fun _ => leave .ok) fun _ => ih _

theorem recv_msg_triple (stream : List Recv) :
    Handler.Triple keeps (raRecvMsg env which handle stream) (fun _ => keeps) cut :=
  recv_loop_triple env _ _ _ cut contract _ _

end

end Contract

end Codec.Radius
