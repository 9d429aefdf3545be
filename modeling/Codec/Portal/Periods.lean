import Codec.Ems.Text
import Codec.Fw.Payload
import Codec.Lib.Assoc
import Codec.Portal.Invariants

set_option autoImplicit false

namespace Codec.Portal

open Codec.Ems Codec.Lib
open Codec.Fw (emsAtoi)

-- nic_json_get_or_set_int; the text of ems_itoa reads back as the number.
def nicJsonGetOrSetInt (root : List (Str × Str)) (key : Str) (val : Int) : Int := ((root.lookup key).map emsAtoi).getD val

-- The two periods of ssid_load_ptl_cfg.
def ssidLoadPtlCfg (root : List (Str × Str)) : Int × Int :=
  (nicJsonGetOrSetInt root (ascii "ems_portal_register_period") 600, nicJsonGetOrSetInt root (ascii "ems_portal_heartbeat_period") 30)

-- What cl_portal_cfg_upt puts of them into the configuration of an ssid.
def clPortalCfgUpt (jssid ptl : List (Str × Str)) : List (Str × Str) :=
  [(ascii "reg_period", ascii "ems_portal_register_period"), (ascii "hb_period", ascii "ems_portal_heartbeat_period")].foldl
    (fun jssid names =>
      let val := (ptl.lookup names.1).getD []
      if 0 < val.length then putEntry names.2 val jssid else jssid) jssid

def Accepted (iface : Iface) : Prop :=
  ∃ jssid ptl, (iface.registerPeriod, iface.heartbeatPeriod) = ssidLoadPtlCfg (clPortalCfgUpt jssid ptl)

structure Usable (regPeriod hbPeriod : Int) : Prop where
  register : 0 < regPeriod
  heartbeat : 0 < hbPeriod
  short : min regPeriod hbPeriod ≤ 2147483

def timerCounts (ptl : EmsPortal) (next : EmsPortal) (beats : Nat) : Nat :=
  if next.st = .reg then 0 else if ptl.st = .normal ∧ next.st = .hb then beats + 1 else beats

-- The module and the number of heartbeats since its last registration.
def beatStep (seen : EmsPortal × Nat) (event : Event) : EmsPortal × Nat :=
  (step seen.1 event, timerCounts seen.1 (step seen.1 event) seen.2)

structure OnSchedule (count : Int → Int → Int) (seen : EmsPortal × Nat) : Prop where
  divides : seen.1.fault ≠ some .noPeriod
  delay : seen.1.st = .normal → ∀ timer, seen.1.sess.map Session.timer = some timer →
    ∃ msecs, timer = some msecs ∧ 0 < msecs ∧ msecs ≤ 2147483647
  registers : seen.1.fault = none → seen.1.st = .normal → ∀ env, (ptlTimeoutCb env seen.1).st = .reg →
    (seen.2 : Int) = count seen.1.regPeriod seen.1.hbPeriod

def configures (fits : Iface → Prop) : Event → Prop
  | .act (.configure iface) => fits iface
  | _ => True

section Frame

structure Kept (ptl next : EmsPortal) : Prop where
  st : next.st = ptl.st
  reg : next.reg = ptl.reg
  regPeriod : next.regPeriod = ptl.regPeriod
  hbPeriod : next.hbPeriod = ptl.hbPeriod
  iface : next.iface = ptl.iface
  timer : next.sess.map Session.timer = ptl.sess.map Session.timer
  fault : next.fault = some .noPeriod → ptl.fault = some .noPeriod

variable (env : Env) (ptl : EmsPortal) (user : User) (auth : AuthHdr) (attr : List ValuePair)

theorem kept_refl : Kept ptl ptl := ⟨rfl, rfl, rfl, rfl, rfl, rfl, id⟩

theorem kept_trans (first second third : EmsPortal) (left : Kept first second) (right : Kept second third) : Kept first third :=
  ⟨right.st.trans left.st, right.reg.trans left.reg, right.regPeriod.trans left.regPeriod, right.hbPeriod.trans left.hbPeriod,
    right.iface.trans left.iface, right.timer.trans left.timer, left.fault ∘ right.fault⟩

theorem kept_and_then (middle : EmsPortal) (next : EmsPortal → EmsPortal) (left : Kept ptl middle) (right : Kept middle (next middle)) :
    Kept ptl (middle.andThen next) := by
  rw [EmsPortal.andThen]
  split
  · exact kept_trans _ _ _ left right
  · exact left

theorem kept_emit (msg : Sent) : Kept ptl (ptl.emit msg) := ⟨rfl, rfl, rfl, rfl, rfl, rfl, id⟩

theorem kept_edit (id : Nat) (change : User → User) : Kept ptl (ptl.edit id change) := ⟨rfl, rfl, rfl, rfl, rfl, rfl, fun same => same⟩

theorem kept_crash (why : Fault) (other : why ≠ .noPeriod) : Kept ptl (ptl.crash why) :=
  ⟨rfl, rfl, rfl, rfl, rfl, rfl, fun same => absurd (Option.some.inj same) other⟩

theorem kept_remove (id : Nat) : Kept ptl (ptl.remove id) := ⟨rfl, rfl, rfl, rfl, rfl, rfl, fun same => same⟩

theorem kept_arm (id : Nat) : Kept ptl (ptl.arm id) := ⟨rfl, rfl, rfl, rfl, rfl, rfl, fun same => same⟩

theorem kept_append : Kept ptl (ptl.append user) := ⟨rfl, rfl, rfl, rfl, rfl, rfl, fun same => same⟩

theorem kept_written (sess : Session) (bufOut : Buffer) (there : ptl.sess = some sess) :
    Kept ptl (ptl.withSess { sess with bufOut := bufOut }) :=
  ⟨rfl, rfl, rfl, rfl, rfl, by rw [there]; rfl, id⟩

theorem kept_ack (id : Option Nat) : Kept ptl (ptlEvtAck ptl id auth attr) := by
  cases there : ptl.sess with
  | none =>
    cases id with
    | none => simpa only [ptlEvtAck, there] using kept_refl ptl
    | some id => simpa only [ptlEvtAck, there] using kept_remove ptl id
  | some sess =>
    have written := kept_written ptl sess (ackBuf sess.bufOut auth attr) there
    cases id with
    | none => simpa only [ptlEvtAck, there] using written
    | some id =>
      simp only [ptlEvtAck, there]
      exact kept_trans _ _ _ written (kept_trans _ _ _ (kept_edit _ id _) (kept_arm _ id))

theorem kept_edit_ack (id : Nat) (change : User → User) (back : Option Nat) :
    Kept ptl (ptlEvtAck (ptl.edit id change) back auth attr) :=
  kept_trans _ _ _ (kept_edit ptl id _) (kept_ack _ auth attr back)

theorem kept_logout : Kept ptl (ptl.sendLogout user) := by
  rw [EmsPortal.sendLogout]
  split
  · exact kept_crash ptl _ (by rintro ⟨⟩)
  · exact kept_emit ptl _

theorem kept_ntf_logout : Kept ptl (ptlUserNtfLogout ptl user) := by
  rw [ptlUserNtfLogout]
  split
  · exact kept_edit_ack ptl _ _ _ _ _
  · exact kept_refl ptl

theorem kept_online : Kept ptl (ptl.goesOnline user) := by
  rw [EmsPortal.goesOnline]
  split
  · exact kept_refl ptl
  · exact ⟨rfl, rfl, rfl, rfl, rfl, rfl, id⟩

theorem kept_auth_rsp (err : Int) : Kept ptl (ptlUserAuthRsp ptl user err) := by
  rw [ptlUserAuthRsp]
  split
  · split
    · exact kept_trans _ _ _ (kept_online ptl user) (kept_edit_ack _ _ _ _ _ _)
    · exact kept_edit_ack ptl _ _ _ _ _
  · exact kept_refl ptl

theorem kept_user_timeout (id : Nat) : Kept ptl (userTimeout ptl id) := by
  have cancelled : Kept ptl (ptl.cancel id) := ⟨rfl, rfl, rfl, rfl, rfl, rfl, fun same => same⟩
  rw [userTimeout]
  split
  · split
    · exact kept_trans _ _ _ cancelled (kept_crash _ _ (by rintro ⟨⟩))
    · rename_i user _
      apply kept_trans _ _ _ cancelled
      rw [userTimeoutCb]
      apply kept_trans _ _ _ (kept_edit _ _ fun user => { user with retryTimes := user.retryTimes - 1 })
      split
      · rw [userRetry]
        split
        · exact kept_crash _ _ (by rintro ⟨⟩)
        · rename_i sess there
          exact kept_trans _ _ _ (kept_written _ sess _ there) (kept_arm _ _)
      · rw [userGiveUp]
        split
        · split
          · exact kept_and_then _ _ _ (kept_logout _ user) (kept_ntf_logout _ user)
          · exact kept_remove _ _
        · exact kept_remove _ _
        · exact kept_remove _ _
        · exact kept_remove _ _
        · exact kept_refl _
  · exact kept_refl ptl

theorem kept_clear (users : List User) (ptl : EmsPortal) : Kept ptl (ptlClearAllUsers users ptl) := by
  induction users generalizing ptl with
  | nil => exact kept_refl ptl
  | cons user rest ih =>
    have next (ptl : EmsPortal) := kept_trans _ _ _ (kept_remove ptl user.id) (ih _)
    rw [ptlClearAllUsers]
    split
    · exact kept_and_then _ _ _ (kept_logout ptl user) (next _)
    · exact next ptl

theorem kept_send (pass mac : Str) : Kept ptl (reqAuthSend ptl user pass mac) := by
  have edited : Kept ptl ({ ptl with macText := mac }.edit user.id fun user => { user with pass := some pass, mac := some mac }) :=
    ⟨rfl, rfl, rfl, rfl, rfl, rfl, id⟩
  rw [reqAuthSend]
  split
  · exact kept_trans _ _ _ edited (kept_crash _ _ (by rintro ⟨⟩))
  · exact kept_trans _ _ _ edited (kept_emit _ _)

theorem kept_req_auth_user : Kept ptl (reqAuthUser env ptl user auth attr) := by
  rw [reqAuthUser]
  apply kept_trans _ _ _ (kept_edit ptl _ _)
  split
  · exact kept_edit_ack _ _ _ _ _ _
  · split
    · exact kept_send _ user _ _
    · split
      · exact kept_crash _ _ (by rintro ⟨⟩)
      · split
        · refine kept_trans _ _ _ ?_ (kept_edit_ack _ _ _ _ _ _)
          exact ⟨rfl, rfl, rfl, rfl, rfl, rfl, id⟩
        · exact kept_send _ user _ _

theorem kept_req_auth : Kept ptl (ptlEvtReqAuth env ptl auth attr) := by
  rw [ptlEvtReqAuth]
  split
  · split
    · exact kept_ack ptl _ _ none
    · rename_i name _
      exact kept_trans _ _ _ (kept_append ptl _) (kept_req_auth_user env _ _ auth attr)
  · split
    · exact kept_edit_ack ptl _ _ _ _ none
    · split
      · exact kept_ack ptl _ _ none
      · split
        · exact kept_ack ptl _ _ none
        · exact kept_req_auth_user env ptl _ auth attr

theorem kept_event : Kept ptl (ptlProcessEvt env ptl auth attr) := by
  rw [ptlProcessEvt]
  split
  · rw [ptlEvtReqChallenge]
    split
    · exact kept_edit_ack ptl _ _ _ _ _
    · split
      · exact kept_ack ptl _ _ none
      · exact kept_trans _ _ _ (kept_append ptl _) (kept_ack _ _ _ _)
  · split
    · exact kept_req_auth env ptl auth attr
    · split
      · rw [ptlEvtReqLogout]
        split
        · exact kept_ack ptl _ _ none
        · refine kept_trans _ _ _ (kept_edit ptl _ _) (kept_and_then _ _ _ (kept_logout _ _) (kept_ack _ _ _ _))
      · split
        · rw [ptlEvtAffAckAuth]
          split
          · exact kept_refl ptl
          · split
            · exact kept_trans _ _ _ (kept_online ptl _) ⟨rfl, rfl, rfl, rfl, rfl, rfl, id⟩
            · exact kept_refl ptl
        · split
          · exact kept_ack ptl _ _ none
          · exact kept_refl ptl

theorem handle_seated (cb : RecvCb) (msg : Msg) (seated : ptl.sess.isSome) : (ptlHandle env cb ptl msg).sess.isSome := by
  have settled (next : EmsPortal) (sess : next.sess.isSome) : (statusIntoNormal next).sess.isSome := by
    unfold statusIntoNormal
    dsimp only
    repeat' split
    all_goals simpa [EmsPortal.editSess, EmsPortal.crash] using sess
  rw [ptlHandle, EmsPortal.andThen]
  split
  · split
    · rename_i auth attr
      have same := congrArg Option.isSome (kept_event env ptl auth attr).timer
      rw [Option.isSome_map, Option.isSome_map] at same
      exact same.trans seated
    · unfold ptlRegRsp
      split
      · apply settled
        split <;> exact seated
      · rwa [← Option.isSome_map] at seated
    · exact seated
    · unfold ptlHbRsp
      split
      · exact settled ptl seated
      · rwa [← Option.isSome_map] at seated
  · exact seated

theorem and_then_twice (next : EmsPortal → EmsPortal) : (ptl.andThen fun ptl => ptl.andThen next) = ptl.andThen next := by
  by_cases alive : ptl.fault = none
  · exact and_then_none ptl _ alive
  · rw [and_then_some ptl _ alive, and_then_some ptl _ alive]

-- What a READ brings is framed by ptl_recv_msg into messages, with what
-- happens to the socket between them.
theorem step_moves (event : Event) : ∃ moves, step ptl event = run move ptl moves := by
  by_cases alive : ptl.fault = none
  swap
  · exact ⟨[], and_then_some ptl _ alive⟩
  cases event with
  | act what => exact ⟨[.act what], rfl⟩
  | readable env stream =>
    rw [step, and_then_none ptl _ alive]
    dsimp only
    split
    · rename_i sess cb there _
      let keeps (next : EmsPortal) : Prop := next.sess.isSome ∧ ∃ moves, next = run move ptl moves
      have moved (next after : EmsPortal) (m : Move) (kept : keeps next) (same : move next m = after) (sess : after.sess.isSome) :
          keeps after := by
        obtain ⟨-, moves, rfl⟩ := kept
        exact ⟨sess, moves ++ [m], same ▸ (run_append move ptl moves [m]).symm⟩
      refine (receive_keeps env cb keeps ?_ ?_ ptl sess stream ⟨by rw [there]; rfl, [], rfl⟩ ?_ ?_).2
      · intro next msg kept
        refine moved next _ (.message env cb msg) kept ?_ (handle_seated env next cb msg kept.1)
        by_cases alive : next.fault = none
        · exact (and_then_none next _ alive).trans (if_pos kept.1)
        · rw [move_dead next _ alive, ptlHandle, and_then_some next _ alive]
      · intro next opened bufIn kept
        refine moved next _ (.socket opened bufIn) kept (and_then_twice next _) ?_
        rw [EmsPortal.setSocket, EmsPortal.andThen]
        split
        · exact (Option.isSome_map ..).trans kept.1
        · exact kept.1
      · intro next alive kept
        refine moved next _ .fail kept (and_then_none next _ alive) ?_
        exact (Option.isSome_map ..).trans kept.1
      · intro next alive kept
        exact moved next _ .hang kept (and_then_none next _ alive) kept.1
    · exact ⟨[], rfl⟩

theorem process_moves (events : List Event) : ∃ moves, run step ptl events = run move ptl moves := by
  induction events generalizing ptl with
  | nil => exact ⟨[], rfl⟩
  | cons event rest ih =>
    obtain ⟨first, same⟩ := step_moves ptl event
    obtain ⟨moves, last⟩ := ih (step ptl event)
    exact ⟨first ++ moves, by rw [run_append, ← same, run_cons, last]⟩

end Frame

section Schedule

def Counts (ptl : EmsPortal) (beats : Nat) : Prop :=
  ptl.reg + beats = ptl.regPeriod.tdiv ptl.hbPeriod ∧ (1 ≤ ptl.reg ∨ ptl.reg = 0 ∧ beats = 0)

structure Timed (ptl : EmsPortal) (beats : Nat) : Prop where
  iface : Usable ptl.iface.registerPeriod ptl.iface.heartbeatPeriod
  started : ptl.st ≠ .stopped → Usable ptl.regPeriod ptl.hbPeriod
  divides : ptl.fault ≠ some .noPeriod
  delay : ptl.st = .normal → ∀ timer, ptl.sess.map Session.timer = some timer →
    ∃ msecs, timer = some msecs ∧ 0 < msecs ∧ msecs ≤ 2147483647
  counts : ptl.st = .reg ∨ ptl.st = .normal ∨ ptl.st = .hb → Counts ptl beats
  fresh : ptl.st = .reg → beats = 0

variable (env : Env) (ptl : EmsPortal) (beats : Nat)

theorem timed_kept (next : EmsPortal) (timed : Timed ptl beats) (kept : Kept ptl next) : Timed next beats := by
  obtain ⟨iface, started, divides, delay, counts, fresh⟩ := timed
  constructor
  · rw [kept.iface]
    exact iface
  · rw [kept.st, kept.regPeriod, kept.hbPeriod]
    exact started
  · exact fun stuck => divides (kept.fault stuck)
  · rw [kept.st, kept.timer]
    exact delay
  · rw [kept.st, Counts, kept.reg, kept.regPeriod, kept.hbPeriod]
    exact counts
  · rw [kept.st]
    exact fresh

theorem timed_settled (timed : Timed ptl beats) : Timed ptl (if ptl.st = .reg then 0 else beats) := by
  split
  · rename_i reg
    rw [← timed.fresh reg]
    exact timed
  · exact timed

def normalDelay : Int :=
  if ptl.reg > 0 then ptl.hbPeriod * 1000
  else (if ptl.regPeriod.tmod ptl.hbPeriod ≤ 0 then ptl.hbPeriod else ptl.regPeriod.tmod ptl.hbPeriod) * 1000

theorem normal_delay (usable : Usable ptl.regPeriod ptl.hbPeriod) (counts : Counts ptl beats) :
    0 < normalDelay ptl ∧ normalDelay ptl ≤ 2147483647 := by
  obtain ⟨register, heartbeat, short⟩ := usable
  obtain ⟨sum, left⟩ := counts
  rw [normalDelay]
  split
  · have whole : ptl.hbPeriod ≤ ptl.regPeriod := by
      by_contra less
      have none := Int.tdiv_eq_zero_of_lt register.le (not_le.mp less)
      omega
    omega
  · have none : ptl.regPeriod.tdiv ptl.hbPeriod = 0 := by omega
    have parts := Int.mul_tdiv_add_tmod ptl.regPeriod ptl.hbPeriod
    have below := Int.tmod_lt_of_pos ptl.regPeriod heartbeat
    rw [none, Int.mul_zero, Int.zero_add] at parts
    rw [parts] at below ⊢
    rw [if_neg (by omega)]
    omega

theorem normal_armed (usable : Usable ptl.regPeriod ptl.hbPeriod) : statusIntoNormal ptl =
    ({ ptl with st := .normal } : EmsPortal).editSess fun sess => { sess with timer := some (normalDelay ptl) } := by
  simp only [statusIntoNormal, normalDelay]
  split
  · rfl
  · rw [if_neg usable.heartbeat.ne']

section Entering

variable (iface : Usable ptl.iface.registerPeriod ptl.iface.heartbeatPeriod) (usable : Usable ptl.regPeriod ptl.hbPeriod)
  (divides : ptl.fault ≠ some .noPeriod)

include iface usable divides

theorem timed_err (lasterr : Int) : Timed (intoErr ptl lasterr) beats := ⟨iface, fun _ => usable, divides, nofun, nofun, nofun⟩

theorem timed_reg : Timed (statusIntoReg env ptl) 0 := by
  have nonneg := Int.tdiv_nonneg usable.register.le usable.heartbeat.le
  rw [statusIntoReg, if_neg usable.heartbeat.ne']
  refine ⟨iface, fun _ => usable, divides, (by rintro ⟨⟩), fun _ => ⟨Int.add_zero _, ?_⟩, fun _ => rfl⟩
  show 1 ≤ ptl.regPeriod.tdiv _ ∨ ptl.regPeriod.tdiv _ = 0 ∧ 0 = 0
  omega

theorem timed_normal (counts : Counts ptl beats) : Timed (statusIntoNormal ptl) beats := by
  rw [normal_armed ptl usable]
  refine ⟨iface, fun _ => usable, divides, fun _ timer there => ?_, fun _ => counts, nofun⟩
  rw [EmsPortal.editSess, Option.map_map] at there
  obtain ⟨_, _, same⟩ := Option.map_eq_some_iff.mp there
  exact ⟨normalDelay ptl, same.symm, normal_delay ptl _ usable counts⟩

theorem timed_hb (counts : Counts ptl beats) : Timed (statusIntoHb env ptl) beats :=
  ⟨iface, fun _ => usable, divides, nofun, fun _ => counts, nofun⟩

omit iface divides in
theorem reg_st : (statusIntoReg env ptl).st = .reg := by
  rw [statusIntoReg, if_neg usable.heartbeat.ne']
  rfl

theorem timed_start : Timed (portalStart env ptl).2 (if (portalStart env ptl).2.st = .reg then 0 else beats) ∧
    (portalStart env ptl).2.st ≠ .hb := by
  have registered (next : EmsPortal) (iface : Usable next.iface.registerPeriod next.iface.heartbeatPeriod)
      (usable : Usable next.regPeriod next.hbPeriod) (divides : next.fault ≠ some .noPeriod) :
      Timed (statusIntoReg env next) (if (statusIntoReg env next).st = .reg then 0 else beats) ∧ (statusIntoReg env next).st ≠ .hb := by
    rw [reg_st env next usable, if_pos rfl]
    exact ⟨timed_reg env next iface usable divides, (by rintro ⟨⟩)⟩
  rw [portalStart]
  split
  · exact registered _ iface usable divides
  · have failed := timed_err { ptl with st := .start, lasterr := 0, sess := some (ptl.sess.getD sessNew) } beats iface usable divides errNetwork
    exact ⟨timed_settled _ _ failed, (by rintro ⟨⟩)⟩

end Entering

variable (timed : Timed ptl beats)

include timed

theorem timed_ptl_start : Timed (ptlStart env ptl).2 (if (ptlStart env ptl).2.st = .reg then 0 else beats) ∧
    ((ptlStart env ptl).2.st = .hb → ptl.st = .hb) := by
  rw [ptlStart]
  split
  · have started := timed_start env { ptl with
      addr := ptl.iface.addr
      port := ptl.iface.port
      regPeriod := ptl.iface.registerPeriod
      hbPeriod := ptl.iface.heartbeatPeriod } beats timed.iface timed.iface timed.divides
    exact ⟨started.1, fun beating => absurd beating started.2⟩
  · have told : Kept ptl (((ptl.emit .fwStop).emit .radiusStop).emit .httpStop) :=
      kept_trans _ _ _ (kept_emit ptl _) (kept_trans _ _ _ (kept_emit _ _) (kept_emit _ _))
    exact ⟨timed_settled _ _ (timed_kept ptl _ _ timed told), fun beating => told.st.symm.trans beating⟩

theorem timed_stop : (ptlStop env ptl).st = .stopped ∧ Timed (ptlStop env ptl) beats := by
  rw [ptlStop, portalStopped]
  have stopped (ptl : EmsPortal) (iface : Usable ptl.iface.registerPeriod ptl.iface.heartbeatPeriod) (divides : ptl.fault ≠ some .noPeriod)
      (st : ptl.st = .stopped) (users : List User) : (ptlClearAllUsers users ptl).st = .stopped ∧ Timed (ptlClearAllUsers users ptl) beats := by
    have kept := kept_clear users ptl
    refine ⟨kept.st.trans st, timed_kept ptl _ _ ⟨iface, ?_, divides, ?_, ?_, ?_⟩ kept⟩
    all_goals rw [st]; simp
  split
  · apply stopped
    · exact timed.iface
    · exact timed.divides
    · rfl
  · apply stopped
    · exact timed.iface
    · exact timed.divides
    · rfl

theorem timed_send (sess : Session) (result : Send) (there : ptl.sess = some sess) (usable : Usable ptl.regPeriod ptl.hbPeriod) :
    Timed (ptlSendMsg ptl sess result) beats ∧ (ptlSendMsg ptl sess result).st ≠ .hb ∨ Kept ptl (ptlSendMsg ptl sess result) := by
  unfold ptlSendMsg
  split
  · cases result with
    | sent => exact .inr (kept_written ptl sess _ there)
    | again => exact .inr (kept_refl ptl)
    | failed => exact .inl ⟨timed_err (ptl.withSess _) _ timed.iface usable timed.divides _, nofun⟩
  · exact .inl ⟨timed_err _ _ timed.iface usable timed.divides _, nofun⟩

theorem timed_receive (cb : RecvCb) (sess : Session) (stream : List Recv) (usable : Usable ptl.regPeriod ptl.hbPeriod)
    (counts : Counts ptl beats) :
    Timed (ptlReceive env cb ptl sess stream) beats ∧ ((ptlReceive env cb ptl sess stream).st = .hb → ptl.st = .hb) := by
  let keeps (next : EmsPortal) : Prop :=
    Timed next beats ∧ Usable next.regPeriod next.hbPeriod ∧ Counts next beats ∧ (next.st = .hb → ptl.st = .hb)
  have moves (next after : EmsPortal) (kept : keeps next) (same : Kept next after) : keeps after := by
    obtain ⟨timed, usable, counts, beating⟩ := kept
    refine ⟨timed_kept next _ _ timed same, ?_, ?_, ?_⟩
    · rw [same.regPeriod, same.hbPeriod]
      exact usable
    · rw [Counts, same.reg, same.regPeriod, same.hbPeriod]
      exact counts
    · rw [same.st]
      exact beating
  have fails (next : EmsPortal) (lasterr : Int) (kept : keeps next) : keeps _ :=
    ⟨timed_err next _ kept.1.iface kept.2.1 kept.1.divides lasterr, kept.2.1, kept.2.2.1, nofun⟩
  have settles (next : EmsPortal) (kept : keeps next) : keeps (statusIntoNormal next) := by
    have armed := normal_armed next kept.2.1
    refine ⟨timed_normal next _ kept.1.iface kept.2.1 kept.1.divides kept.2.2.1, ?_⟩
    rw [armed]
    exact ⟨kept.2.1, kept.2.2.1, nofun⟩
  have registered (next : EmsPortal) (list : List _) (kept : keeps next) : keeps (ptlRegRsp env next list) := by
    unfold ptlRegRsp
    split
    · apply settles
      split
      · exact kept
      · exact moves next _ kept (kept_trans _ _ _ (kept_emit next _) (kept_emit _ _))
    · exact fails next _ kept
  have active (next : EmsPortal) (list : List _) (kept : keeps next) : keeps (ptlHbRsp next list) := by
    unfold ptlHbRsp
    split
    · exact settles next kept
    · exact fails next _ kept
  have handled (next : EmsPortal) (msg : Msg) (kept : keeps next) : keeps (ptlHandle env cb next msg) := by
    rw [ptlHandle, EmsPortal.andThen]
    split
    · cases msg with
      | event auth attr => exact moves next _ kept (kept_event env next auth attr)
      | reply list =>
        cases cb with
        | normal => exact kept
        | reg => exact registered next list kept
        | hb => exact active next list kept
    · exact kept
  have stored (next : EmsPortal) (opened : Bool) (bufIn : Buffer) (kept : keeps next) : keeps (next.setSocket opened bufIn) := by
    apply moves next _ kept
    rw [EmsPortal.setSocket]
    refine kept_and_then next next _ (kept_refl next) ⟨rfl, rfl, rfl, rfl, rfl, ?_, id⟩
    rw [EmsPortal.editSess, Option.map_map]
    rfl
  have received := receive_keeps env cb _ handled stored ptl sess stream ⟨timed, usable, counts, id⟩
    (fun next _ kept => fails next _ kept) (fun next _ kept => moves next _ kept (kept_crash next _ nofun))
  exact ⟨received.1, received.2.2.2⟩

omit timed in
theorem timed_counted (next : EmsPortal) (settled : Timed next (if next.st = .reg then 0 else beats))
    (beating : next.st = .hb → ptl.st = .hb) : Timed next (timerCounts ptl next beats) := by
  have other : ¬(ptl.st = .normal ∧ next.st = .hb) := fun both => nomatch both.1.symm.trans (beating both.2)
  rw [timerCounts, if_neg other]
  exact settled

theorem timed_counted_kept (next : EmsPortal) (kept : Kept ptl next) : Timed next (timerCounts ptl next beats) :=
  timed_counted ptl _ next (timed_settled next _ (timed_kept ptl _ next timed kept)) fun beating => kept.st.symm.trans beating

theorem timed_retry (waiting : ptl.st = .reg ∨ ptl.st = .hb) :
    Timed (portalRetrySend ptl) (timerCounts ptl (portalRetrySend ptl) beats) := by
  have usable := timed.started (by obtain st | st := waiting <;> rw [st] <;> nofun)
  unfold portalRetrySend
  dsimp only
  split
  · refine timed_counted ptl _ _ (timed_settled _ _ ⟨timed.iface, timed.started, timed.divides, ?_, timed.counts, timed.fresh⟩) id
    intro normal
    obtain st | st := waiting <;> exact nomatch st.symm.trans normal
  · have failed := timed_err { ptl with retryTimes := ptl.retryTimes - 1 } beats timed.iface usable timed.divides errNetwork
    exact timed_counted ptl _ _ (timed_settled _ _ failed) nofun

theorem timed_timeout : Timed (ptlTimeoutCb env ptl) (timerCounts ptl (ptlTimeoutCb env ptl) beats) := by
  unfold ptlTimeoutCb
  cases st : ptl.st with
  | start => exact timed_counted_kept ptl _ timed ptl (kept_refl ptl)
  | stopped => exact timed_counted_kept ptl _ timed ptl (kept_refl ptl)
  | reg => exact timed_retry ptl _ timed (.inl st)
  | hb => exact timed_retry ptl _ timed (.inr st)
  | err =>
    have started := timed_start env ptl beats timed.iface (timed.started (by rw [st]; nofun)) timed.divides
    exact timed_counted ptl _ _ started.1 fun beating => absurd beating started.2
  | normal =>
    have usable := timed.started (by rw [st]; nofun)
    obtain ⟨sum, left⟩ := timed.counts (.inr (.inl st))
    by_cases more : ptl.reg - 1 > 0
    · have same : portalToNormal env ptl = statusIntoHb env _ := if_pos more
      have beat : timerCounts ptl (statusIntoHb env { ptl with reg := ptl.reg - 1 }) beats = beats + 1 := by
        rw [timerCounts, if_neg nofun, if_pos ⟨st, rfl⟩]
      rw [same, beat]
      refine timed_hb env _ _ timed.iface usable timed.divides ⟨?_, .inl more⟩
      rw [← sum, Nat.cast_succ]
      show ptl.reg - 1 + (beats + 1) = ptl.reg + beats
      omega
    · have same : portalToNormal env ptl = statusIntoReg env _ := if_neg more
      rw [same, timerCounts, if_pos (reg_st env { ptl with reg := ptl.reg - 1 } usable)]
      exact timed_reg env _ timed.iface usable timed.divides

theorem timed_act (what : Act) (usual : configures (fun iface => Usable iface.registerPeriod iface.heartbeatPeriod) (.act what)) :
    Timed (act ptl what) (timerCounts ptl (act ptl what) beats) := by
  have counted := timed_counted_kept ptl _ timed
  have stays := counted ptl (kept_refl ptl)
  have fails (next : EmsPortal) (err : Timed next beats) (apart : next.st ≠ .hb) : Timed next _ :=
    timed_counted ptl _ next (timed_settled next _ err) fun beating => absurd beating apart
  have usable (seated : ptl.busy = true) : Usable ptl.regPeriod ptl.hbPeriod := by
    refine timed.started fun stopped => ?_
    rw [EmsPortal.busy, stopped] at seated
    simp [recvCb] at seated
  cases what with
  | start env =>
    have started := timed_ptl_start env ptl _ timed
    rw [act, portalRun, if_pos rfl]
    split
    · exact stays
    · exact timed_counted ptl _ _ (timed_kept _ _ _ started.1 ⟨rfl, rfl, rfl, rfl, rfl, rfl, id⟩) started.2
  | stop env =>
    have stopped := timed_stop env ptl _ timed
    rw [act, portalRun, if_neg (by rintro ⟨⟩)]
    split
    · have kept : Kept _ ((ptlStop env ptl).andThen fun ptl => { ptl with run := false }) :=
        kept_and_then _ _ _ (kept_refl _) ⟨rfl, rfl, rfl, rfl, rfl, rfl, id⟩
      refine fails _ (timed_kept _ _ _ stopped.2 kept) fun beating => ?_
      cases stopped.1.symm.trans (kept.st.symm.trans beating)
    · exact stays
  | rulesUpdate env =>
    have stopped := timed_stop env ptl _ timed
    have started := timed_ptl_start env _ _ stopped.2
    rw [act, portalRulesUpdate]
    split
    · rw [EmsPortal.andThen]
      split
      · refine timed_counted ptl _ _ started.1 fun beating => ?_
        cases stopped.1.symm.trans (started.2 beating)
      · exact fails _ stopped.2 (by rw [stopped.1]; rintro ⟨⟩)
    · exact stays
  | configure iface =>
    exact timed_counted ptl _ _ (timed_settled _ _
      ⟨usual, timed.started, timed.divides, timed.delay, timed.counts, timed.fresh⟩) id
  | fwReload =>
    rw [act]
    split
    · exact counted _ (kept_emit ptl _)
    · exact stays
  | authRsp userip errorCode =>
    rw [act, portalAppAuthRsp]
    split
    · exact stays
    · exact counted _ (kept_trans _ _ _ (kept_edit ptl _ _) (kept_auth_rsp _ _ _))
  | portalLogout userip =>
    rw [act, portalAppLogout]
    split
    · exact stays
    · exact counted _ (kept_trans _ _ _ (kept_ntf_logout ptl _) (kept_edit _ _ _))
  | userTimeout id => exact counted _ (kept_user_timeout ptl id)
  | sessTimeout env =>
    rw [act]
    split
    · exact timed_timeout env ptl _ timed
    · exact stays
  | send result =>
    rw [act]
    split
    · rename_i busy
      cases there : ptl.sess with
      | none => exact stays
      | some sess =>
        obtain failed | kept := timed_send ptl _ timed sess _ there (usable busy)
        · exact fails _ failed.1 failed.2
        · exact counted _ kept
    · exact stays
  | sockError =>
    rw [act]
    split
    · rename_i busy
      exact fails _ (timed_err ptl _ timed.iface (usable busy) timed.divides _) (by rintro ⟨⟩)
    · exact stays

theorem timed_step (event : Event) (usual : configures (fun iface => Usable iface.registerPeriod iface.heartbeatPeriod) event) :
    Timed (step ptl event) (timerCounts ptl (step ptl event) beats) := by
  rw [step, EmsPortal.andThen]
  split
  · cases event with
    | act what => exact timed_act ptl _ timed what usual
    | readable env stream =>
      dsimp only
      split
      · rename_i sess cb _ receiving
        have waiting : ptl.st = .reg ∨ ptl.st = .normal ∨ ptl.st = .hb := by
          cases st : ptl.st <;> rw [st] at receiving <;> simp [recvCb] at receiving ⊢
        have usable := timed.started (by obtain st | st | st := waiting <;> rw [st] <;> nofun)
        have received := timed_receive env ptl _ timed cb sess stream usable (timed.counts waiting)
        exact timed_counted ptl _ _ (timed_settled _ _ received.1) received.2
      · exact timed_counted_kept ptl _ timed ptl (kept_refl ptl)
  · exact timed_counted_kept ptl _ timed ptl (kept_refl ptl)

theorem timed_schedule : OnSchedule (fun register heartbeat => max (register.tdiv heartbeat) 1 - 1) (ptl, beats) := by
  refine ⟨timed.divides, timed.delay, fun _ st env reg => ?_⟩
  obtain ⟨sum, left⟩ := timed.counts (.inr (.inl st))
  have timeout : ptlTimeoutCb env ptl = portalToNormal env ptl := by
    unfold ptlTimeoutCb
    rw [show ptl.st = .normal from st]
  show (beats : Int) = max (ptl.regPeriod.tdiv ptl.hbPeriod) 1 - 1
  by_cases more : ptl.reg - 1 > 0
  · have same : portalToNormal env ptl = statusIntoHb env _ := if_pos more
    rw [timeout, same] at reg
    cases reg
  · omega

end Schedule

theorem timed_run (events : List Event) (seen : EmsPortal × Nat) (timed : Timed seen.1 seen.2)
    (usual : ∀ event ∈ events, configures (fun iface => Usable iface.registerPeriod iface.heartbeatPeriod) event) :
    Timed (run beatStep seen events).1 (run beatStep seen events).2 := by
  induction events generalizing seen with
  | nil => exact timed
  | cons event rest ih =>
    exact ih _ (timed_step _ _ timed _ (usual _ List.mem_cons_self))
      fun other later => usual _ (List.mem_cons_of_mem _ later)

def AcceptedUsable (iface : Iface) : Prop := Accepted iface ∧ Usable iface.registerPeriod iface.heartbeatPeriod

theorem portal_on_schedule (iface : Iface) (events : List Event) (usable : AcceptedUsable iface)
    (usual : ∀ event ∈ events, configures AcceptedUsable event) :
    OnSchedule (fun register heartbeat => max (register.tdiv heartbeat) 1 - 1) (run beatStep (EmsPortal.init iface, 0) events) := by
  apply timed_schedule
  apply timed_run
  · refine ⟨usable.2, fun started => absurd rfl started, nofun, nofun, ?_, nofun⟩
    rintro (st | st | st) <;> cases st
  · intro event there
    have fits := usual _ there
    cases event with
    | readable env stream => trivial
    | act what =>
      cases what with
      | configure iface => exact fits.2
      | _ => trivial

def minuteIface : Iface := ⟨true, [49], 2000, 60, 20⟩

theorem minute_accepted : Accepted minuteIface :=
  ⟨[], [(ascii "reg_period", ascii "60"), (ascii "hb_period", ascii "20")], by decide⟩

def responses (text : Str) : Event := .readable sampleEnv [.data (18 :: UInt8.ofNat (text.length + 2) :: text), .again]

def minuteEvents : List Event :=
  [.act (.start sampleEnv), responses (ascii "register"), .act (.sessTimeout sampleEnv), responses (ascii "active"),
    .act (.sessTimeout sampleEnv), responses (ascii "active")]

theorem portal_on_schedule_minute :
    OnSchedule (fun register heartbeat => max (register.tdiv heartbeat) 1 - 1) (run beatStep (EmsPortal.init minuteIface, 0) minuteEvents) :=
  portal_on_schedule _ _ ⟨minute_accepted, by decide, by decide, by decide⟩
    fun event there => by
      simp only [minuteEvents, List.mem_cons, List.not_mem_nil, or_false] at there
      obtain one | one | one | one | one | one := there <;> rw [one] <;> trivial

-- The registration itself is the third message.
theorem two_heartbeats_a_minute : ¬∀ iface events, Accepted iface → (∀ event ∈ events, configures Accepted event) →
      OnSchedule (fun register heartbeat => register.tdiv heartbeat) (run beatStep (EmsPortal.init iface, 0) events) := by
  intro claim
  have scheduled := claim _ minuteEvents minute_accepted fun event there => by
    simp only [minuteEvents, List.mem_cons, List.not_mem_nil, or_false] at there
    obtain one | one | one | one | one | one := there <;> rw [one] <;> trivial
  have counted := scheduled.registers (by decide +kernel) (by decide +kernel) sampleEnv (by decide +kernel)
  revert counted
  decide +kernel

end Codec.Portal
