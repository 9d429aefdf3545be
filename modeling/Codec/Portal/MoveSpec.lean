import Codec.Portal.Stop

set_option autoImplicit false

namespace Codec.Portal

open Codec.Ems

structure Shape (ptl : EmsPortal) : Prop where
  unique : OneEach ptl
  ids : ∀ user ∈ ptl.users, user.id < ptl.nextId
  seated : ptl.fault = none → ptl.users ≠ [] → ptl.sess.isSome

section Status

variable (special : User → User → Prop)

variable (env : Env) (ptl : EmsPortal)

theorem effects_into_err (lasterr : Int) : Effects special ptl (intoErr ptl lasterr) := by
  have marked : Effects _ ptl { ptl with st := .err, lasterr := lasterr } :=
    effects_other special ptl _ ⟨rfl, rfl, rfl, rfl, id, id⟩
  have told : Effects _ { ptl with st := .err, lasterr := lasterr } _ := effects_sent special _ .fwStop
  exact effects_trans _ _ _ _ marked (effects_trans _ _ _ _ told (effects_edit_sess _ _ _))

theorem effects_asks (st : Status) (pkgtype : UInt32) (sn : Str) : Effects special ptl (ptl.asks st pkgtype sn) := by
  let next : EmsPortal := { ptl with
    st := st, retryTimes := portalRetryTimes, retryTimeout := portalRetryTimeout, lasterr := 0 }
  have marked : Effects _ ptl next := effects_other special ptl next ⟨rfl, rfl, rfl, rfl, id, id⟩
  exact effects_trans _ _ _ _ marked (effects_edit_sess _ next _)

theorem effects_into_reg : Effects special ptl (statusIntoReg env ptl) := by
  rw [statusIntoReg]
  split
  · exact effects_crash _ ptl _
  · have counted : Effects _ (ptl.asks .reg 2 _) _ :=
      effects_other special _ { ptl.asks .reg 2 env.sn with reg := ptl.regPeriod.tdiv ptl.hbPeriod }
        ⟨rfl, rfl, rfl, rfl, id, id⟩
    exact effects_trans _ _ _ _ (effects_asks _ ptl .reg 2 _) counted

theorem effects_into_normal : Effects special ptl (statusIntoNormal ptl) := by
  have marked : Effects _ ptl { ptl with st := .normal } := effects_other special ptl _ ⟨rfl, rfl, rfl, rfl, id, id⟩
  apply effects_trans _ _ _ _ marked
  simp only [statusIntoNormal]
  split
  · exact effects_edit_sess _ _ _
  · split
    · exact effects_crash _ _ _
    · exact effects_edit_sess _ _ _

theorem effects_into_hb : Effects special ptl (statusIntoHb env ptl) := effects_asks _ ptl .hb 1 _

theorem effects_start : Effects special ptl (portalStart env ptl).2 := by
  let next : EmsPortal := { ptl with st := .start, lasterr := 0, sess := some (ptl.sess.getD sessNew) }
  have marked : Effects _ ptl next := effects_other special ptl next ⟨rfl, rfl, rfl, rfl, (fun absent => nomatch absent), id⟩
  apply effects_trans _ _ _ _ marked
  simp only [portalStart]
  split
  · exact effects_trans _ _ _ _ (effects_edit_sess _ next _) (effects_into_reg _ env _)
  · exact effects_into_err _ next _

theorem effects_reg_rsp (list : List ValuePair) : Effects special ptl (ptlRegRsp env ptl list) := by
  rw [ptlRegRsp]
  split
  · split
    · exact effects_into_normal _ ptl
    · have told := effects_trans _ _ _ _ (effects_sent _ ptl .fwStart)
        (effects_sent special _ (.fwAddressAdd ptl.addr))
      exact effects_trans _ _ _ _ told (effects_into_normal _ _)
  · exact effects_into_err _ ptl _

theorem effects_hb_rsp (list : List ValuePair) : Effects special ptl (ptlHbRsp ptl list) := by
  rw [ptlHbRsp]
  split
  · exact effects_into_normal _ ptl
  · exact effects_into_err _ ptl _

theorem effects_handle (cb : RecvCb) (ptl : EmsPortal) (msg : Msg) (seated : ptl.sess.isSome)
    (unique : OneEach ptl) (allows : ∀ auth attr, msg = .event auth attr → AllowsEvt special ptl auth) :
    Effects special ptl (ptlHandle env cb ptl msg) := by
  apply effects_and_then _ _ _ _ (effects_refl _ ptl)
  intro _
  cases msg with
  | event auth attr => exact effects_process_evt _ env ptl auth attr seated unique (allows auth attr rfl)
  | reply list =>
    cases cb with
    | reg => exact effects_reg_rsp _ env ptl list
    | normal => exact effects_refl _ ptl
    | hb => exact effects_hb_rsp _ ptl list

theorem effects_send_msg (sess : Session) (result : Send) : Effects special ptl (ptlSendMsg ptl sess result) := by
  rw [ptlSendMsg.eq_def]
  split
  · cases result with
    | sent => exact effects_with_sess _ ptl _
    | again => exact effects_refl _ ptl
    | failed => exact effects_trans _ _ _ _ (effects_with_sess _ ptl _) (effects_into_err _ _ _)
  · exact effects_into_err _ ptl _

theorem effects_retry_send : Effects special ptl (portalRetrySend ptl) := by
  have counted : Effects _ ptl { ptl with retryTimes := ptl.retryTimes - 1 } :=
    effects_other special ptl _ ⟨rfl, rfl, rfl, rfl, id, id⟩
  apply effects_trans _ _ _ _ counted
  simp only [portalRetrySend]
  split
  · exact effects_edit_sess _ _ _
  · exact effects_into_err _ _ _

theorem effects_to_normal : Effects special ptl (portalToNormal env ptl) := by
  have counted : Effects _ ptl { ptl with reg := ptl.reg - 1 } := effects_other special ptl _ ⟨rfl, rfl, rfl, rfl, id, id⟩
  apply effects_trans _ _ _ _ counted
  simp only [portalToNormal]
  split
  · exact effects_into_hb _ env _
  · exact effects_into_reg _ env _

theorem effects_timeout : Effects special ptl (ptlTimeoutCb env ptl) := by
  rw [ptlTimeoutCb]
  cases ptl.st with
  | reg => exact effects_retry_send _ ptl
  | normal => exact effects_to_normal _ env ptl
  | hb => exact effects_retry_send _ ptl
  | err => exact effects_start _ env ptl
  | start => exact effects_refl _ ptl
  | stopped => exact effects_refl _ ptl

theorem effects_ptl_start : Effects special ptl (ptlStart env ptl).2 := by
  rw [ptlStart]
  split
  · have loaded : Effects _ ptl { ptl with
        addr := ptl.iface.addr
        port := ptl.iface.port
        regPeriod := ptl.iface.registerPeriod
        hbPeriod := ptl.iface.heartbeatPeriod } := effects_other special ptl _ ⟨rfl, rfl, rfl, rfl, id, id⟩
    exact effects_trans _ _ _ _ loaded (effects_start _ env _)
  · exact effects_trans _ _ _ _ (effects_sent _ ptl _)
      (effects_trans _ _ _ _ (effects_sent _ _ _) (effects_sent _ _ _))

end Status

variable (ptl : EmsPortal)

theorem found_by (userip : Option Str) (user : User)
    (found : userip.bind (ptlUserFind ptl) = some user) : user ∈ ptl.users := by
  obtain ⟨ip, _, there⟩ := Option.bind_eq_some_iff.mp found
  exact found_listed ptl ip user there

theorem ack_offline (id : Nat) (auth : AuthHdr) (attr : List ValuePair) (seated : ptl.sess.isSome)
    (offline : Offline ptl id) : Offline (ptlEvtAck ptl (some id) auth attr) id := by
  obtain ⟨sess, same⟩ := Option.isSome_iff_exists.mp seated
  rw [ack_user ptl sess id auth attr same]
  exact offline_kept _ id
    _ (fun _ => rfl) offline

theorem ntf_logout_offline (user : User) (waits : user.st = .affAckAuth ∨ user.st = .ackAuth)
    (seated : ptl.sess.isSome) : Offline (ptlUserNtfLogout ptl user) user.id := by
  rw [ptlUserNtfLogout, if_pos waits]
  apply ack_offline
  · exact seated
  · exact offline_edit ptl _ _ fun _ => rfl

section Acts

variable (special : User → User → Prop)

variable (ptl : EmsPortal)

theorem effects_auth_rsp (user : User) (err : Int) (listed : user ∈ ptl.users) (unique : OneEach ptl)
    (seated : ptl.sess.isSome) (told : special user (user.told err))
    (answered : user.st = .affAckAuth ∨ user.st = .reqAuth → special (user.told err) ((user.told err).answered err)) :
    Effects special ptl (ptlUserAuthRsp (ptl.edit user.id fun user => user.told err) user err) := by
  have alone : ∀ other ∈ ptl.users, other.id = user.id → other = user := fun other member same =>
    unique _ member user listed same
  have tell : Effects special ptl (ptl.edit user.id fun user => user.told err) := by
    apply effects_special _ ptl _ (fun user => user.told err) (fun _ => rfl)
    intro other member same
    rw [alone _ member same]
    exact told
  apply effects_trans _ _ _ _ tell
  rw [ptlUserAuthRsp]
  by_cases waits : user.st = .affAckAuth ∨ user.st = .reqAuth
  · rw [if_pos waits]
    have flagged (next : EmsPortal) (users : next.users = (ptl.edit user.id fun user => user.told err).users)
        (sess : next.sess = ptl.sess) (auth : AuthHdr) :
        Effects special next (ptlEvtAck (next.edit user.id (·.answered err)) (some user.id) auth []) := by
      have answer : Effects special next (next.edit user.id (·.answered err)) := by
        apply effects_special _ next _ (·.answered err) (fun _ => rfl)
        intro other member same
        rw [users] at member
        obtain ⟨old, there, rfl⟩ := edited ptl _ _ _ member
        by_cases mine : old.id = user.id
        · rw [if_pos mine, alone old there mine]
          exact answered waits
        · rw [if_neg mine] at same
          exact absurd same mine
      apply effects_trans _ _ _ _ answer
      apply effects_ack _
      · rw [show (next.edit _ _).sess = next.sess from rfl, sess]
        exact seated
      · intro key same
        cases same
        apply edit_listed next _ _ (·.answered err) (fun _ => rfl)
        rw [users]
        exact edit_listed ptl _ _ _ (fun _ => rfl) ⟨user, listed, rfl⟩
    split
    · apply effects_trans _ _ _ _ (effects_goes_online _ _ user)
      exact flagged _ (goes_online_users _ user) (goes_online_sess _ user) _
    · exact flagged _ rfl rfl _
  · rw [if_neg waits]
    exact effects_refl _ _

theorem effects_app_logout (user : User) (listed : user ∈ ptl.users) (unique : OneEach ptl)
    (seated : ptl.sess.isSome) (deny : ¬(user.st = .affAckAuth ∨ user.st = .ackAuth) → special user user.deny) :
    Effects special ptl ((ptlUserNtfLogout ptl user).edit user.id User.deny) := by
  have notify := effects_ntf_logout special ptl user seated ⟨user, listed, rfl⟩
  apply effects_trans _ _ _ _ notify
  by_cases waits : user.st = .affAckAuth ∨ user.st = .ackAuth
  · apply effects_one _
    apply Effect.edit _ User.deny (fun _ => rfl)
    intro other member same
    left
    left
    exact ntf_logout_offline ptl user waits seated other member same
  · rw [ptlUserNtfLogout, if_neg waits]
    apply effects_special _ ptl _ User.deny (fun _ => rfl)
    intro other member same
    rw [unique _ member user listed same]
    exact deny waits

structure Allows (ptl : EmsPortal) (m : Move) : Prop where
  message : ∀ env cb auth attr, m = .message env cb (.event auth attr) → AllowsEvt special ptl auth
  authRsp : ∀ userip errorCode user, m = .act (.authRsp userip errorCode) → userip.bind (ptlUserFind ptl) = some user →
    special user (user.told (errorCode.getD 0)) ∧
      (user.st = .affAckAuth ∨ user.st = .reqAuth →
        special (user.told (errorCode.getD 0)) ((user.told (errorCode.getD 0)).answered (errorCode.getD 0)))
  logout : ∀ userip user, m = .act (.portalLogout userip) → userip.bind (ptlUserFind ptl) = some user →
    ¬(user.st = .affAckAuth ∨ user.st = .ackAuth) → special user user.deny

inductive Stops (ptl : EmsPortal) : Move → Prop where
  | stop (env : Env) (running : ptl.run = true) : Stops ptl (.act (.stop env))
  | restart (env : Env) (running : ptl.run = true) (changed : ptl.configured = false) :
      Stops ptl (.act (.rulesUpdate env))

def Stopped (ptl : EmsPortal) (m : Move) : Prop := Stops ptl m ∧ ∃ env, Effects special (ptlStop env ptl) (move ptl m)

theorem effects_run (run : Bool) : Effects special ptl { ptl with run := run } :=
  effects_other _ ptl _ ⟨rfl, rfl, rfl, rfl, id, id⟩

theorem move_alive (what : Act) (alive : ptl.fault = none) : move ptl (.act what) = act ptl what := and_then_none ptl _ alive

theorem act_effects (what : Act) (shape : Shape ptl) (alive : ptl.fault = none) (allows : Allows special ptl (.act what)) :
    Effects special ptl (move ptl (.act what)) ∨ Stopped special ptl (.act what) := by
  rw [Stopped, move_alive ptl what alive]
  cases what with
  | start env =>
    left
    simp only [act, portalRun, if_true]
    split
    · exact effects_refl _ ptl
    · exact effects_trans _ _ _ _ (effects_ptl_start _ env ptl) (effects_run _ _ _)
  | stop env =>
    simp only [act, portalRun]
    by_cases running : ptl.run = true
    · right
      refine ⟨.stop env running, env, ?_⟩
      simp only [running, if_true]
      exact effects_and_then _ _ _ (fun ptl => { ptl with run := false }) (effects_refl _ _) fun _ =>
        effects_run _ _ _
    · left
      simp only [running]
      exact effects_refl _ ptl
  | rulesUpdate env =>
    simp only [act, portalRulesUpdate]
    by_cases restarts : ptl.run = true ∧ ¬ptl.configured = true
    · right
      refine ⟨.restart env restarts.1 (by simpa using restarts.2), env, ?_⟩
      rw [if_pos restarts]
      exact effects_and_then _ _ _ _ (effects_refl _ _) fun _ => effects_ptl_start _ env _
    · left
      rw [if_neg restarts]
      exact effects_refl _ ptl
  | configure iface => exact .inl (effects_other _ ptl _ ⟨rfl, rfl, rfl, rfl, id, id⟩)
  | fwReload =>
    left
    simp only [act]
    split
    · exact effects_sent _ ptl _
    · exact effects_refl _ ptl
  | authRsp userip errorCode =>
    left
    simp only [act, portalAppAuthRsp]
    cases found : userip.bind _ with
    | none => exact effects_refl _ ptl
    | some user =>
      have listed := found_by ptl _ user found
      obtain ⟨told, answered⟩ := allows.authRsp _ _ user rfl found
      exact effects_auth_rsp _ ptl user _ listed shape.unique
        (shape.seated alive (List.ne_nil_of_mem listed)) told answered
  | portalLogout userip =>
    left
    simp only [act, portalAppLogout]
    cases found : userip.bind _ with
    | none => exact effects_refl _ ptl
    | some user =>
      have listed := found_by ptl _ user found
      exact effects_app_logout _ ptl user listed shape.unique (shape.seated alive (List.ne_nil_of_mem listed))
        (allows.logout _ user rfl found)
  | userTimeout id => exact .inl (effects_user_timeout _ ptl id (shape.seated alive))
  | sessTimeout env =>
    left
    simp only [act]
    split
    · exact effects_timeout _ env ptl
    · exact effects_refl _ ptl
  | send result =>
    left
    simp only [act]
    split
    · cases ptl.sess with
      | none => exact effects_refl _ ptl
      | some sess => exact effects_send_msg _ ptl sess _
    · exact effects_refl _ ptl
  | sockError =>
    left
    simp only [act]
    split
    · exact effects_into_err _ ptl _
    · exact effects_refl _ ptl

theorem move_effects (m : Move) (shape : Shape ptl) (allows : Allows special ptl m) :
    Effects special ptl (move ptl m) ∨ Stopped special ptl m := by
  by_cases alive : ptl.fault = none
  · cases m with
    | message env cb msg =>
      left
      rw [move, and_then_none ptl _ alive]
      by_cases seated : ptl.sess.isSome = true
      · simp only [if_pos seated]
        apply effects_handle _ env cb ptl msg seated shape.unique
        intro auth attr same
        exact allows.message env cb auth attr (by rw [same])
      · simp only [if_neg seated]
        exact effects_refl _ ptl
    | socket opened bufIn =>
      left
      rw [move, and_then_none ptl _ alive]
      exact effects_and_then _ _ _ _ (effects_refl _ ptl) fun _ => effects_edit_sess _ ptl _
    | fail =>
      left
      rw [move, and_then_none ptl _ alive]
      exact effects_into_err _ ptl _
    | hang =>
      left
      rw [move, and_then_none ptl _ alive]
      exact effects_crash _ ptl _
    | act what => exact act_effects _ ptl what shape alive allows
  · rw [move_dead ptl m alive]
    exact .inl (effects_refl _ ptl)

end Acts

end Codec.Portal
