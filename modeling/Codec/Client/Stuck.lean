import Codec.Client.Status

set_option autoImplicit false

namespace Codec.Client

open Codec.Lib

def NotStuck (cl : EmsClient) : Prop := cl.hung = false ∧ (cl.st = .stopped ∨ cl.timer = true)

def requesting (st : ClSt) : Prop := st = .getdc ∨ st = .getconfig ∨ st = .getupdatefile ∨ st = .updatestatus

structure ClLive (cl : EmsClient) : Prop where
  back : cl.hung = false
  sess : cl.sess = true
  timer : cl.timer = true
  stays : cl.st ≠ .start ∧ cl.st ≠ .stopped
  left : cl.st = .connect → cl.last ≠ .stopped ∧ requesting cl.next

def ClInv (cl : EmsClient) : Prop := (cl.hung = false ∧ cl.st = .stopped ∧ cl.sess = false) ∨ ClLive cl

theorem requesting_enters (st : ClSt) (asked : requesting st) : st ≠ .start ∧ st ≠ .stopped ∧ st ≠ .connect := by
  rcases asked with rfl | rfl | rfl | rfl <;> exact ⟨nofun, nofun, nofun⟩

section Enter

variable (cl : EmsClient) (back : cl.hung = false) (sess : cl.sess = true)

include back sess

theorem change_live (st : ClSt) (enters : st ≠ .start ∧ st ≠ .stopped ∧ st ≠ .connect) : ClLive (clChangeStatus cl st) := by
  cases st with
  | start => exact absurd rfl enters.1
  | stopped => exact absurd rfl enters.2.1
  | connect => exact absurd rfl enters.2.2
  | err =>
    show ClLive (if cl.sess = true then _ else _)
    rw [if_pos sess]
    exact ⟨back, sess, rfl, ⟨nofun, nofun⟩, nofun⟩
  | _ => exact ⟨back, sess, rfl, ⟨nofun, nofun⟩, nofun⟩

theorem err_live : ClLive (clChangeStatus cl .err) := change_live cl back sess .err ⟨nofun, nofun, nofun⟩

theorem normal_live : ClLive (clChangeStatus cl .normal) := change_live cl back sess _ ⟨nofun, nofun, nofun⟩

theorem connect_live (stays : cl.st ≠ .stopped) (reach : Reach) (st : ClSt) (asked : requesting st) : ClLive (clConnectOr cl reach st) := by
  cases reach with
  | fails => exact err_live cl back sess
  | online => exact change_live cl back sess st (requesting_enters st asked)
  | waits => exact ⟨back, sess, rfl, ⟨nofun, nofun⟩, fun _ => ⟨stays, asked⟩⟩

end Enter

variable (inp : ClInput) (cl : EmsClient)

theorem start_live (back : cl.hung = false) (ready : cl.sess = true ∨ (inp.err = 0 ∧ inp.created = true))
    (stays : cl.st ≠ .stopped) : ClLive (clStart inp cl) := by
  rw [clStart]
  split
  · rename_i err
    exact err_live cl back (ready.resolve_right fun both => err both.1)
  · split
    · rename_i neither
      exact (ready.elim neither.1 fun both => neither.2 both.2).elim
    · exact connect_live { cl with sess := true, uptPeriod := _, getconfPeriod := _ } back rfl stays _ _ (.inl rfl)

theorem change_start_live (back : cl.hung = false) (ready : cl.sess = true ∨ inp.created = true) :
    ClLive (clChangeStart inp cl) :=
  start_live _ _ back (ready.imp_right fun created => ⟨rfl, created⟩) nofun

section Handlers

variable (inp : ClInput) (cl : EmsClient) (live : ClLive cl)

include live

theorem transfer_live (rsp broken unsent : EmsClient → EmsClient) (opened : inp.read ≠ some .closed) (answered : ClLive (rsp cl)) (refused : ClLive (broken cl))
    (failed : ∀ cl, ClLive cl → ClLive (unsent cl)) : ClLive (clTransfer inp cl rsp broken unsent) := by
  rw [clTransfer]
  split
  · rename_i closed
    exact absurd closed opened
  · exact refused
  · dsimp only
    split
    · exact failed _ answered
    · exact answered
  · dsimp only
    split
    · exact failed _ live
    · exact live

theorem getdc_live (opened : inp.err = 0 → inp.read ≠ some .closed) : ClLive (clGetdc inp cl) := by
  rw [clGetdc]
  split
  · exact err_live cl live.back live.sess
  · rename_i err
    refine transfer_live inp cl live _ _ _ (opened (not_not.mp err)) ?_ (err_live cl live.back live.sess) fun next live => err_live next live.back live.sess
    rw [clMsgGetdcRsp]
    split
    · exact connect_live cl live.back live.sess live.stays.2 _ _ (.inr (.inl rfl))
    · exact err_live cl live.back live.sess

theorem getconfig_live (opened : inp.err = 0 → inp.read ≠ some .closed) : ClLive (clGetconfig inp cl) := by
  have goes (next : EmsClient) (live : ClLive next) (reach : Reach) : ClLive _ :=
    connect_live next live.back live.sess live.stays.2 reach _ (.inr (.inr (.inl rfl)))
  have processed (next : EmsClient) (live : ClLive next) : ClLive (clConfProcess inp next) := by
    rw [clConfProcess]
    split
    · exact live
    · exact { live with }
  rw [clGetconfig]
  split
  · exact goes cl live _
  · rename_i err
    refine transfer_live inp cl live _ _ _ (opened (not_not.mp err)) ?_ (goes cl live _) fun next live => goes next live _
    refine goes _ ?_ _
    split
    · exact live
    · split
      · exact live
      · exact processed _ { live with }

theorem getupdatefile_live (opened : inp.read ≠ some .closed) : ClLive (clGetupdatefile inp cl) :=
  transfer_live inp cl live _ _ _ opened (normal_live cl live.back live.sess) (err_live cl live.back live.sess)
    fun next live => err_live next live.back live.sess

theorem updatestatus_live : ClLive (clUpdatestatus inp cl) := by
  rw [clUpdatestatus]
  split
  · exact normal_live cl live.back live.sess
  · split
    · exact normal_live cl live.back live.sess
    · exact normal_live cl live.back live.sess
    · exact live

end Handlers

theorem refused_live (back : cl.hung = false) (sess : cl.sess = true) (st : cl.st = .connect)
    (left : cl.last ≠ .stopped ∧ requesting cl.next) (other : cl.last ≠ .connect) (read : inp.read = none)
    (armed : cl.timer = true ∨ (cl.last ≠ .getupdatefile ∧ (inp.err = 0 → cl.last = .start ∨ cl.last = .err))) :
    ClLive (ctrlHandler inp cl cl.last) := by
  have stays : cl.st ≠ .start ∧ cl.st ≠ .stopped := by
    rw [st]
    exact ⟨nofun, nofun⟩
  have same (timer : cl.timer = true) : ClLive cl := ⟨back, sess, timer, stays, fun _ => left⟩
  have opened : inp.read ≠ some .closed := by
    rw [read]
    exact nofun
  -- Without an error only these two go on by themselves.
  have alone (err : inp.err = 0) (neither : cl.last ≠ .start ∧ cl.last ≠ .err) : ClLive cl :=
    same (armed.resolve_right fun both => (both.2 err).elim neither.1 neither.2)
  cases last : cl.last with
  | start => exact start_live inp cl back (.inl sess) stays.2
  | stopped => exact absurd last left.1
  | connect => exact absurd last other
  | err =>
    show ClLive (if inp.err ≠ 0 then _ else if cl.sess = true then _ else _)
    split
    · exact err_live cl back sess
    · exact ⟨back, sess, rfl, stays, fun _ => left⟩
  | normal =>
    show ClLive (if inp.err ≠ 0 then _ else _)
    split
    · exact normal_live cl back sess
    · rename_i err
      exact alone (not_not.mp err) (by rw [last]; exact ⟨nofun, nofun⟩)
  | getdc =>
    by_cases err : inp.err = 0
    · exact getdc_live inp cl (alone err (by rw [last]; exact ⟨nofun, nofun⟩)) fun _ => opened
    · rw [ctrlHandler, clGetdc, if_pos err]
      exact err_live cl back sess
  | getconfig =>
    by_cases err : inp.err = 0
    · exact getconfig_live inp cl (alone err (by rw [last]; exact ⟨nofun, nofun⟩)) fun _ => opened
    · rw [ctrlHandler, clGetconfig, if_pos err]
      exact connect_live cl back sess stays.2 _ _ (.inr (.inr (.inl rfl)))
  | getupdatefile => exact getupdatefile_live inp cl (same (armed.resolve_right fun both => both.1 last)) opened
  | updatestatus =>
    by_cases err : inp.err = 0
    · exact updatestatus_live inp cl (alone err (by rw [last]; exact ⟨nofun, nofun⟩))
    · rw [ctrlHandler, clUpdatestatus, if_pos err]
      exact normal_live cl back sess

theorem lost_live (back : cl.hung = false) (sess : cl.sess = true) (st : cl.st = .connect)
    (left : cl.last ≠ .stopped ∧ requesting cl.next) (other : ¬ (inp.err = 0 ∧ inp.found.2 = 0) → cl.last ≠ .connect)
    (armed : cl.timer = true ∨ (inp.err ≠ 0 ∧ cl.last ≠ .getupdatefile ∧ (inp.found.1 = 0 → cl.last = .start ∨ cl.last = .err))) :
    ClLive (clEvtRun inp cl) := by
  rw [clEvtRun, if_pos st, clConnect]
  split
  · exact change_live cl back sess _ (requesting_enters _ left.2)
  · rename_i failed
    rw [if_neg (other failed)]
    refine refused_live _ cl back sess st left (other failed) rfl (armed.imp_right fun ⟨handed, file, found⟩ => ⟨file, fun err => found ?_⟩)
    rw [if_pos handed] at err
    exact err

def Rearms (cl : EmsClient) : ClStep → Prop
  | .run inp => cl.running = false → inp.created = true
  | .stop => True
  | .trigger inp => cl.nConf = -1 → inp.created = true
  | .event inp => match cl.st with
      | .getdc => inp.err = 0 → inp.read ≠ some .closed
      | .getconfig => inp.err = 0 → inp.read ≠ some .closed
      | .getupdatefile => inp.read ≠ some .closed
      | .connect => ¬ (inp.err = 0 ∧ inp.found.2 = 0) → cl.last ≠ .connect
      | _ => True
  | .timeout inp => match cl.st with
      | .getupdatefile => False
      | .connect => cl.last ≠ .connect ∧ cl.last ≠ .getupdatefile ∧ (inp.found.1 = 0 → cl.last = .start ∨ cl.last = .err)
      | _ => True

theorem evt_run (st : ClSt) (same : cl.st = st) (other : st ≠ .connect) : clEvtRun inp cl = ctrlHandler inp cl st := by
  rw [clEvtRun, same, if_neg other]

theorem event_live (live : ClLive cl) (inp : ClInput) (rearms : Rearms cl (.event inp)) : ClLive (clEvtRun inp cl) := by
  obtain ⟨st, same⟩ : ∃ st, cl.st = st := ⟨_, rfl⟩
  cases st with
  | connect =>
    simp only [Rearms, same] at rearms
    exact lost_live inp cl live.back live.sess same (live.left same) rearms (.inl live.timer)
  | start => exact absurd same live.stays.1
  | stopped => exact absurd same live.stays.2
  | err =>
    rw [evt_run inp cl .err same nofun, ctrlHandler, clErr]
    split
    · exact err_live cl live.back live.sess
    · rw [clErrEnter, if_pos live.sess]
      exact ⟨live.back, live.sess, rfl, live.stays, live.left⟩
  | normal =>
    rw [evt_run inp cl _ same nofun, ctrlHandler, clNormal]
    split
    · exact normal_live cl live.back live.sess
    · exact live
  | getdc =>
    simp only [Rearms, same] at rearms
    rw [evt_run inp cl _ same nofun]
    exact getdc_live inp cl live rearms
  | getconfig =>
    simp only [Rearms, same] at rearms
    rw [evt_run inp cl _ same nofun]
    exact getconfig_live inp cl live rearms
  | getupdatefile =>
    simp only [Rearms, same] at rearms
    rw [evt_run inp cl _ same nofun]
    exact getupdatefile_live inp cl live rearms
  | updatestatus =>
    rw [evt_run inp cl _ same nofun]
    exact updatestatus_live inp cl live

theorem timeout_live (live : ClLive cl) (inp : ClInput) (rearms : Rearms cl (.timeout inp)) : ClLive (clTimeoutCb inp cl) := by
  rw [clTimeoutCb]
  split
  · rw [clToErr]
    split
    · exact connect_live { cl with timer := false, next := .stopped } live.back live.sess live.stays.2 _ _ (.inr (.inl rfl))
    · exact change_start_live inp _ live.back (.inl live.sess)
  · rw [clToNormal]
    split
    · exact connect_live { cl with timer := false, getconf := cl.getconfPeriod } live.back live.sess live.stays.2 _ _ (.inr (.inl rfl))
    · exact connect_live { cl with timer := false, getconf := cl.getconf - cl.uptPeriod } live.back live.sess live.stays.2 _ _
        (.inr (.inr (.inr rfl)))
  · exact err_live _ live.back live.sess
  · rename_i st
    exact absurd st live.stays.1
  · rename_i st
    exact absurd st live.stays.2
  · rename_i err normal getdc start stopped
    obtain ⟨st, same⟩ : ∃ st, cl.st = st := ⟨_, rfl⟩
    cases st with
    | err => exact (err same).elim
    | normal => exact (normal same).elim
    | getdc => exact (getdc same).elim
    | start => exact (start same).elim
    | stopped => exact (stopped same).elim
    | getupdatefile => simp only [Rearms, same] at rearms
    | getconfig =>
      rw [evt_run _ { cl with timer := false } _ same nofun]
      exact connect_live { cl with timer := false } live.back live.sess live.stays.2 _ _ (.inr (.inr (.inl rfl)))
    | updatestatus =>
      rw [evt_run _ { cl with timer := false } _ same nofun]
      exact normal_live _ live.back live.sess
    | connect =>
      simp only [Rearms, same] at rearms
      exact lost_live _ _ live.back live.sess same (live.left same)
        (fun _ => rearms.1) (.inr ⟨Int.one_ne_zero, rearms.2⟩)

theorem cl_step_inv (step : ClStep) (inv : ClInv cl) (rearms : Rearms cl step) : ClInv (clStep cl step) := by
  have back : cl.hung = false := inv.elim And.left ClLive.back
  have live (sess : cl.sess = true) : ClLive cl := inv.resolve_left fun stopped => nomatch sess.symm.trans stopped.2.2
  cases step with
  | run inp =>
    rw [clStep]
    split
    · exact inv
    · rename_i starts
      have idle : cl.running = false := Bool.eq_false_iff.mpr fun running => starts (.inl running)
      exact .inr (change_start_live inp _ back (.inr (rearms idle)))
  | stop =>
    rw [clStep]
    split
    · exact inv
    · exact .inl ⟨back, rfl, rfl⟩
  | trigger inp =>
    rw [clStep]
    split
    · rename_i ready
      exact .inr (change_start_live inp _ back (.inr (rearms ready.2.2.1)))
    · exact inv
  | event inp =>
    rw [clStep]
    split
    · rename_i there
      exact .inr (event_live cl (live there.1) inp rearms)
    · exact inv
  | timeout inp =>
    rw [clStep]
    split
    · rename_i there
      exact .inr (timeout_live cl (live there.1) inp rearms)
    · exact inv

theorem never_stuck (steps : List ClStep) (rearms : AllSteps clStep Rearms clientInit steps) : NotStuck (run clStep clientInit steps) := by
  have inv := run_keeps _ _ ClInv _ _ (.inl ⟨rfl, rfl, rfl⟩) (fun cl step inv rearms => cl_step_inv cl step inv rearms) rearms
  rcases inv with ⟨back, st, _⟩ | live
  · exact ⟨back, .inl st⟩
  · exact ⟨live.back, .inr live.timer⟩

def plainInput : ClInput := ⟨0, none, none, .online, .online, true, (300, 600), true, some 1, none, (0, 0), []⟩

def reportingSteps : List ClStep := [.run plainInput, .event { plainInput with read := some .answer }, .event { plainInput with read := some .answer },
  .event { plainInput with read := some .answer }, .timeout plainInput, .event { plainInput with write := some .done }]

theorem never_stuck_sample : NotStuck (run clStep clientInit reportingSteps) := by
  refine never_stuck _ ⟨fun _ => rfl, ?_, ?_, ?_, ?_, ?_, trivial⟩
  · exact fun _ => nofun
  · exact fun _ => nofun
  · exact nofun
  · exact trivial
  · exact trivial

theorem update_file_late : ¬ NotStuck (run clStep clientInit
    [.run plainInput, .event { plainInput with read := some .answer }, .event { plainInput with read := some .answer }, .timeout plainInput]) := by
  rintro ⟨_, stopped | pending⟩
  · exact nomatch stopped
  · exact nomatch pending

end Codec.Client
