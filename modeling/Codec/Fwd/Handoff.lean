import Codec.Lib.Runs

set_option autoImplicit false

namespace Codec.Fwd

open Codec.Lib

-- fc->st without the state behind fwd_child_uninit.
inductive ChildSt
  | run
  | stopped
deriving DecidableEq

-- Where a thread of the child is: in front of its first line, in front of
-- fwd_event_run's, at the test of fwd_child_callback, at the locked section,
-- behind fwd_event_end, at the timers and events, behind the loop.
inductive ThreadPc
  | entry
  | starting
  | callback
  | locked
  | ending
  | serving
  | behind
  | ended
deriving DecidableEq

-- Where the main loop is: outside the hand-off, at the test of fc->st, at the
-- lines of fwd_child_stop, in the join, at the creation of a thread.
inductive MainPc
  | idle
  | attached
  | stopping
  | joining
  | creating
deriving DecidableEq

structure Child where
  st : ChildSt
  wait : List Nat
  sess : List Nat
  nWait : Nat
  nSess : Nat
  tid : Option Nat
  run : Bool
  threads : List ThreadPc
  main : MainPc

variable (fc : Child)

def fwdChildInit : Child := ⟨.stopped, [], [], 0, 0, none, false, [], .idle⟩

-- One access or one locked section of a thread; done are the sessions that end
-- while it serves them.
def fwdChildThread (done : List Nat) : ThreadPc → Child × ThreadPc
  | .entry => ({ fc with st := .run }, .starting)
  | .starting => ({ fc with run := true }, .callback)
  | .callback => if fc.st = .stopped then ({ fc with run := false }, .ending) else (fc, .locked)
  | .locked =>
    if fc.wait = [] then
      if fc.sess = [] then ({ fc with st := .stopped, run := false }, .ending) else (fc, .serving)
    else ({ fc with sess := fc.sess ++ fc.wait, nSess := fc.nSess + fc.wait.length, wait := [], nWait := 0 }, .serving)
  | .ending => (fc, if fc.run then .serving else .behind)
  | .serving =>
    let left := fc.sess.filter fun one => one ∉ done
    ({ fc with sess := left, nSess := fc.nSess - (fc.sess.length - left.length) }, if fc.run then .callback else .behind)
  | .behind => ({ fc with st := .stopped }, .ended)
  | .ended => (fc, .ended)

-- The steps of the main loop: fwd_child_session_attach, the test in
-- fwd_main_session_release_ctrl, and fwd_child_start.
inductive HandoffStep
  | attach (one : Nat)
  | test
  | stop
  | join
  | create (ok : Bool)
  | thread (id : Nat) (done : List Nat)

def handoffStep : HandoffStep → Child
  | .attach one => if fc.main = .idle then { fc with wait := fc.wait ++ [one], nWait := fc.nWait + 1, main := .attached } else fc
  | .test => if fc.main = .attached then { fc with main := if fc.st = .stopped then .stopping else .idle } else fc
  | .stop => if fc.main = .stopping then { fc with st := .stopped, main := if fc.tid = none then .creating else .joining } else fc
  | .join => if fc.main = .joining ∧ ∀ id ∈ fc.tid, fc.threads[id]? = some .ended then { fc with tid := none, main := .creating } else fc
  | .create ok =>
    if fc.main = .creating then
      if ok then { fc with tid := some fc.threads.length, threads := fc.threads ++ [.entry], main := .idle } else { fc with main := .idle }
    else fc
  | .thread id done => match fc.threads[id]? with
      | some pc =>
        let (fc, pc) := fwdChildThread fc done pc
        { fc with threads := fc.threads.set id pc }
      | none => fc

def decided : ThreadPc → Bool
  | .ending => true
  | .behind => true
  | .ended => true
  | _ => false

def looping : ThreadPc → Bool
  | .callback => true
  | .locked => true
  | .ending => true
  | .serving => true
  | _ => false

structure HandedOff (fc : Child) : Prop where
  none_stranded : fc.main = .idle → (∀ pc ∈ fc.threads, decided pc) → fc.wait = [] ∧ fc.sess = []
  single : (fc.threads.filter looping).length ≤ 1
  join : fc.main = .joining → fc.wait = [] ∧ fc.sess = []

def FirstStart : HandoffStep → Prop
  | .test => fc.main = .attached → fc.st = .stopped → fc.tid = none
  | .create ok => ok = true
  | _ => True

def Beside : ThreadPc → Prop
  | .entry => fc.sess = []
  | .starting => fc.st = .run ∧ fc.sess = []
  | .callback => fc.st = .run ∧ fc.run = true
  | .locked => fc.st = .run ∧ fc.run = true
  | .serving => fc.st = .run ∧ fc.run = true
  | .ending => fc.st = .stopped ∧ fc.run = false ∧ fc.sess = [] ∧ (fc.main = .idle → fc.wait = [])
  | .behind => fc.st = .stopped ∧ fc.sess = [] ∧ (fc.main = .idle → fc.wait = [])
  | .ended => fc.st = .stopped ∧ fc.sess = [] ∧ (fc.main = .idle → fc.wait = [])

inductive HandInv (fc : Child) : Prop
  | without (none_ : fc.threads = []) (tid : fc.tid = none) (st : fc.st = .stopped) (sess : fc.sess = [])
      (wait : fc.main = .idle → fc.wait = []) (main : fc.main ≠ .joining)
  | withOne (pc : ThreadPc) (one : fc.threads = [pc]) (tid : fc.tid = some 0) (main : fc.main = .idle ∨ fc.main = .attached) (beside : Beside fc pc)

theorem hand_inv_holds (inv : HandInv fc) : HandedOff fc := by
  cases inv with
  | without none_ tid st sess wait main =>
    refine ⟨fun idle _ => ⟨wait idle, sess⟩, ?_, fun joins => absurd joins main⟩
    rw [none_]
    exact Nat.zero_le 1
  | withOne pc one tid main beside =>
    refine ⟨fun idle all => ?_, ?_, fun joins => ?_⟩
    · have ends := all pc (by rw [one]; exact List.mem_singleton_self pc)
      cases pc with
      | ending => exact ⟨beside.2.2.2 idle, beside.2.2.1⟩
      | behind => exact ⟨beside.2.2 idle, beside.2.1⟩
      | ended => exact ⟨beside.2.2 idle, beside.2.1⟩
      | _ => exact nomatch ends
    · rw [one]
      exact List.length_filter_le _ _
    · rcases main with idle | attached
      · exact nomatch idle.symm.trans joins
      · exact nomatch attached.symm.trans joins

theorem thread_beside (done : List Nat) (pc : ThreadPc) (beside : Beside fc pc) :
    Beside (fwdChildThread fc done pc).1 (fwdChildThread fc done pc).2 ∧ (fwdChildThread fc done pc).1.threads = fc.threads ∧
    (fwdChildThread fc done pc).1.tid = fc.tid ∧ (fwdChildThread fc done pc).1.main = fc.main := by
  cases pc with
  | entry => exact ⟨⟨rfl, beside⟩, rfl, rfl, rfl⟩
  | starting => exact ⟨⟨beside.1, rfl⟩, rfl, rfl, rfl⟩
  | callback =>
    rw [fwdChildThread, if_neg (by rw [beside.1]; exact nofun)]
    exact ⟨beside, rfl, rfl, rfl⟩
  | locked =>
    rw [fwdChildThread]
    split
    · rename_i empty
      split
      · rename_i none_
        exact ⟨⟨rfl, rfl, none_, fun _ => empty⟩, rfl, rfl, rfl⟩
      · exact ⟨beside, rfl, rfl, rfl⟩
    · exact ⟨beside, rfl, rfl, rfl⟩
  | ending =>
    obtain ⟨st, run, sess, wait⟩ := beside
    rw [fwdChildThread, run]
    exact ⟨⟨st, sess, wait⟩, rfl, rfl, rfl⟩
  | serving =>
    obtain ⟨st, run⟩ := beside
    rw [fwdChildThread, run]
    exact ⟨⟨st, rfl⟩, rfl, rfl, rfl⟩
  | behind => exact ⟨⟨rfl, beside.2⟩, rfl, rfl, rfl⟩
  | ended => exact ⟨beside, rfl, rfl, rfl⟩

theorem attach_beside (one : Nat) (pc : ThreadPc) (beside : Beside fc pc) :
    Beside { fc with wait := fc.wait ++ [one], nWait := fc.nWait + 1, main := .attached } pc := by
  cases pc with
  | ending => exact ⟨beside.1, beside.2.1, beside.2.2.1, nofun⟩
  | behind => exact ⟨beside.1, beside.2.1, nofun⟩
  | ended => exact ⟨beside.1, beside.2.1, nofun⟩
  | _ => exact beside

theorem test_beside (pc : ThreadPc) (running : fc.st ≠ .stopped) (beside : Beside fc pc) : Beside { fc with main := .idle } pc := by
  cases pc with
  | ending => exact absurd beside.1 running
  | behind => exact absurd beside.1 running
  | ended => exact absurd beside.1 running
  | _ => exact beside

theorem handoff_without (none_ : fc.threads = []) (tid : fc.tid = none) (st : fc.st = .stopped) (sess : fc.sess = [])
    (wait : fc.main = .idle → fc.wait = []) (main : fc.main ≠ .joining) (step : HandoffStep) (first : FirstStart fc step) :
    HandInv (handoffStep fc step) := by
  have same : HandInv fc := .without none_ tid st sess wait main
  cases step with
  | attach one =>
    rw [handoffStep]
    split
    · exact .without none_ tid st sess nofun nofun
    · exact same
  | test =>
    rw [handoffStep]
    split
    · exact .without none_ tid st sess nofun nofun
    · exact same
  | stop =>
    rw [handoffStep]
    split
    · exact .without none_ tid rfl sess nofun nofun
    · exact same
  | join =>
    rw [handoffStep, if_neg fun joins => main joins.1]
    exact same
  | create ok =>
    rw [handoffStep]
    split
    · rw [if_pos (show ok = true from first)]
      refine .withOne .entry ?_ ?_ (.inl rfl) sess
      · exact congrArg (· ++ [ThreadPc.entry]) none_
      · exact congrArg (fun threads : List _ => some _) none_
    · exact same
  | thread id done =>
    rw [handoffStep, none_]
    exact same

theorem handoff_with (pc : ThreadPc) (one : fc.threads = [pc]) (tid : fc.tid = some 0) (main : fc.main = .idle ∨ fc.main = .attached)
    (beside : Beside fc pc) (step : HandoffStep) (first : FirstStart fc step) : HandInv (handoffStep fc step) := by
  have same : HandInv fc := .withOne pc one tid main beside
  have outside (other : MainPc) (differs : other ≠ .idle ∧ other ≠ .attached) : fc.main ≠ other :=
    fun equal => main.elim (fun idle => differs.1 (equal.symm.trans idle)) fun attached => differs.2 (equal.symm.trans attached)
  cases step with
  | attach session =>
    rw [handoffStep]
    split
    · exact .withOne pc one tid (.inr rfl) (attach_beside fc _ pc beside)
    · exact same
  | test =>
    rw [handoffStep]
    split
    · rename_i attached
      have running : fc.st ≠ .stopped := fun stopped => nomatch tid.symm.trans (first attached stopped)
      rw [if_neg running]
      exact .withOne pc one tid (.inl rfl) (test_beside fc pc running beside)
    · exact same
  | stop =>
    rw [handoffStep, if_neg (outside .stopping ⟨nofun, nofun⟩)]
    exact same
  | join =>
    rw [handoffStep, if_neg fun joins => outside .joining ⟨nofun, nofun⟩ joins.1]
    exact same
  | create ok =>
    rw [handoffStep, if_neg (outside .creating ⟨nofun, nofun⟩)]
    exact same
  | thread id done =>
    cases id with
    | succ id =>
      rw [handoffStep, one]
      exact same
    | zero =>
      obtain ⟨next, threads, tid_, main_⟩ := thread_beside fc done pc beside
      have there : fc.threads[0]? = some pc := by rw [one]; rfl
      rw [handoffStep, there]
      refine .withOne (fwdChildThread fc done pc).2 ?_ (tid_.trans tid) (main_.symm ▸ main) ?_
      · show (fwdChildThread fc done pc).1.threads.set 0 _ = _
        rw [threads, one]
        rfl
      · generalize (fwdChildThread fc done pc).2 = last at next ⊢
        cases last <;> exact next

theorem handed_off (steps : List HandoffStep) (first : AllSteps handoffStep FirstStart fwdChildInit steps) :
    HandedOff (run handoffStep fwdChildInit steps) := by
  have initial : HandInv fwdChildInit := .without rfl rfl rfl rfl (fun _ => rfl) nofun
  refine hand_inv_holds _ (run_keeps _ _ _ _ _ initial (fun fc step inv allowed => ?_) first)
  cases inv with
  | without none_ tid st sess wait main => exact handoff_without fc none_ tid st sess wait main step allowed
  | withOne pc one tid main beside => exact handoff_with fc pc one tid main beside step allowed

theorem handed_off_sample : HandedOff (run handoffStep fwdChildInit [.attach 1, .test, .stop, .create true, .thread 0 [], .thread 0 [],
    .thread 0 [], .thread 0 [], .attach 2, .test, .thread 0 [1], .thread 0 [], .thread 0 []]) :=
  handed_off _
    ⟨trivial, fun _ _ => rfl, trivial, rfl, trivial, trivial, trivial, trivial, trivial, nofun, trivial, trivial, trivial, trivial⟩

-- The second hand-off comes before the thread's first line: the main loop joins
-- the thread it has just made, and the thread serves both sessions first.
theorem joins_new_thread : ¬ HandedOff (run handoffStep fwdChildInit [.attach 1, .test, .stop, .create true, .attach 2, .test, .stop]) ∧
    (run handoffStep fwdChildInit [.attach 1, .test, .stop, .create true, .attach 2, .test, .stop, .thread 0 [], .thread 0 [], .thread 0 [],
      .thread 0 [], .join]).main = .joining ∧
    (run handoffStep fwdChildInit [.attach 1, .test, .stop, .create true, .attach 2, .test, .stop, .thread 0 [], .thread 0 [], .thread 0 [],
      .thread 0 [], .join]).sess = [1, 2] := by
  refine ⟨fun handed => ?_, by decide, by decide⟩
  exact nomatch (handed.join rfl).1

end Codec.Fwd
