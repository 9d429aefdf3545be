import Mathlib.Algebra.Group.Nat.Defs
import Codec.Ems.Timer
import Codec.Lib.Runs
import Mathlib.Data.List.Pairwise

set_option autoImplicit false

namespace Codec.Fwd

open Codec.Lib

structure Timeval where
  sec : Int
  usec : Int
deriving DecidableEq

def Timeval.usecs (time : Timeval) : Int := time.sec * 1000000 + time.usec

-- fwd_time_diff: the milliseconds in an int, each part rounded to zero.
def fwdTimeDiff (t1 t2 : Timeval) : Int := ((t1.sec - t2.sec) * 1000 + (t1.usec - t2.usec).tdiv 1000).bmod (2 ^ 32)

-- A pending fwd_timeout of the queue evt->timeout.
structure FwdTimeout where
  id : Nat
  time : Timeval
deriving DecidableEq

inductive FwdTimeoutPos
  | tail
  | sort
  | head

variable (now : Timeval) (timer : FwdTimeout)

def fwdTimeoutCancel (queue : List FwdTimeout) (id : Nat) : List FwdTimeout := queue.filter fun timer => timer.id ≠ id

-- FWD_TIMEOUT_SORT: in front of the first one that is later.
def insertSorted (new : FwdTimeout) : List FwdTimeout → List FwdTimeout
  | [] => [new]
  | timer :: rest => if fwdTimeDiff timer.time new.time > 0 then new :: timer :: rest else timer :: insertSorted new rest

def fwdTimeoutAdd (queue : List FwdTimeout) (new : FwdTimeout) : FwdTimeoutPos → List FwdTimeout
  | .sort => insertSorted new queue
  | .head => new :: queue
  | .tail => queue ++ [new]

def fwdTimeoutExpiry (clock : Timeval) (msecs : Nat) : Timeval :=
  let sec := clock.sec + msecs / 1000
  let usec := clock.usec + msecs % 1000 * 1000
  if usec > 1000000 then ⟨sec + 1, usec.tmod 1000000⟩ else ⟨sec, usec⟩

def fwdTimeoutSet (queue : List FwdTimeout) (id : Nat) (clock : Timeval) (msecs : Nat) (pos : FwdTimeoutPos) : List FwdTimeout :=
  fwdTimeoutAdd (fwdTimeoutCancel queue id) ⟨id, fwdTimeoutExpiry clock msecs⟩ pos

-- What users, sessions and the CM client do to the queue: all of them set at
-- position 0.
inductive TimerOp
  | set (id : Nat) (clock : Timeval) (msecs : Nat)
  | cancel (id : Nat)

def timerOp (queue : List FwdTimeout) : TimerOp → List FwdTimeout
  | .set id clock msecs => fwdTimeoutSet queue id clock msecs .tail
  | .cancel id => fwdTimeoutCancel queue id

def due : Bool := ¬ fwdTimeDiff timer.time now > 0

-- fwd_event_handle_timeouts: calls are what the callbacks do, one after the
-- other; behind its end they do nothing.
def fwdEventHandleTimeouts (now : Timeval) : List (List TimerOp) → List FwdTimeout → List FwdTimeout
  | [], queue => queue.dropWhile (due now)
  | _ :: _, [] => []
  | ops :: calls, timer :: queue =>
    if due now timer then fwdEventHandleTimeouts now calls (run timerOp (fwdTimeoutCancel (timer :: queue) timer.id) ops) else timer :: queue

def eventTick : Int := 1000

def fwdEventNextTimeout (queue : List FwdTimeout) (now : Timeval) : Int := match queue with
  | [] => eventTick
  | timer :: _ =>
    let diff := fwdTimeDiff timer.time now
    if diff ≤ 0 then 0 else if diff > eventTick then eventTick else diff

inductive TimerStep
  | op (op : TimerOp)
  | sweep (now : Timeval) (calls : List (List TimerOp))

def timerStep (queue : List FwdTimeout) : TimerStep → List FwdTimeout
  | .op op => timerOp queue op
  | .sweep now calls => fwdEventHandleTimeouts now calls queue

def SweptRight (queue : List FwdTimeout) : Prop := ∀ timer ∈ queue,
  now.usecs < timer.time.usecs + 1000 ∧ now.usecs + fwdEventNextTimeout queue now * 1000 ≤ timer.time.usecs

def Sorted (queue : List FwdTimeout) : Prop := queue.Pairwise fun one other => one.time.usecs ≤ other.time.usecs

def InOrder (queue : List FwdTimeout) : TimerOp → Prop
  | .set id clock msecs => ∀ timer ∈ fwdTimeoutCancel queue id, timer.time.usecs ≤ (fwdTimeoutExpiry clock msecs).usecs
  | .cancel _ => True

def ahead : Int := (timer.time.sec - now.sec) * 1000 + (timer.time.usec - now.usec).tdiv 1000

-- The int has not wrapped around, and what is left of the second is not
-- rounded up for a timer that is near.
def NotOver : Prop := 0 < fwdTimeDiff timer.time now →
  0 < ahead now timer ∧ (ahead now timer ≤ eventTick → now.usec ≤ timer.time.usec ∨ 1000 ∣ timer.time.usec - now.usec)

def SweepInOrder (now : Timeval) : List (List TimerOp) → List FwdTimeout → Prop
  | [], queue => ∀ timer ∈ (queue.dropWhile (due now)).head?, NotOver now timer
  | _ :: _, [] => True
  | ops :: calls, timer :: queue =>
    if due now timer then AllSteps timerOp InOrder (fwdTimeoutCancel (timer :: queue) timer.id) ops ∧
      SweepInOrder now calls (run timerOp (fwdTimeoutCancel (timer :: queue) timer.id) ops)
    else NotOver now timer

def StepInOrder (queue : List FwdTimeout) : TimerStep → Prop
  | .op op => InOrder queue op
  | .sweep now calls => SweepInOrder now calls queue

instance decidableInOrder (queue : List FwdTimeout) : ∀ op, Decidable (InOrder queue op)
  | .set id clock msecs =>
    inferInstanceAs (Decidable (∀ timer ∈ fwdTimeoutCancel queue id, timer.time.usecs ≤ (fwdTimeoutExpiry clock msecs).usecs))
  | .cancel _ => isTrue trivial

instance decidableNotOver (now : Timeval) (timer : FwdTimeout) : Decidable (NotOver now timer) :=
  inferInstanceAs (Decidable (0 < fwdTimeDiff timer.time now → _ ∧ (_ → _ ∨ _)))

instance decidableSweepInOrder (now : Timeval) : ∀ calls queue, Decidable (SweepInOrder now calls queue)
  | [], queue => inferInstanceAs (Decidable (∀ timer ∈ (queue.dropWhile (due now)).head?, NotOver now timer))
  | _ :: _, [] => isTrue trivial
  | ops :: calls, timer :: queue =>
    have _ := decidableSweepInOrder now calls (run timerOp (fwdTimeoutCancel (timer :: queue) timer.id) ops)
    inferInstanceAs (Decidable (if due now timer then _ ∧ _ else _))

instance decidableStepInOrder (queue : List FwdTimeout) : ∀ step, Decidable (StepInOrder queue step)
  | .op op => decidableInOrder queue op
  | .sweep now calls => decidableSweepInOrder now calls queue

section Sorted

variable (queue : List FwdTimeout) (sorted : Sorted queue)

include sorted

theorem cancel_sorted (id : Nat) : Sorted (fwdTimeoutCancel queue id) := List.Pairwise.filter _ sorted

theorem op_sorted (op : TimerOp) (order : InOrder queue op) : Sorted (timerOp queue op) := by
  cases op with
  | cancel id => exact cancel_sorted _ sorted id
  | set id clock msecs =>
    refine List.pairwise_append.mpr ⟨cancel_sorted _ sorted id, List.pairwise_singleton _ _, fun timer there new_ only => ?_⟩
    rw [List.mem_singleton.mp only]
    exact order _ there

theorem ops_sorted (ops : List TimerOp) (order : AllSteps timerOp InOrder queue ops) : Sorted (run timerOp queue ops) :=
  run_keeps _ _ _ _ ops sorted (fun _ op kept allowed => op_sorted _ kept op allowed) order

end Sorted

theorem not_over_wait (fine : NotOver now timer) (positive : 0 < fwdTimeDiff timer.time now) :
    now.usecs + min (fwdTimeDiff timer.time now) eventTick * 1000 ≤ timer.time.usecs := by
  obtain ⟨future, near⟩ := fine positive
  have bounds := Ems.tdiv_bounds (timer.time.usec - now.usec)
  have wrapped : fwdTimeDiff timer.time now ≤ ahead now timer := by
    rw [ahead] at future ⊢
    rw [fwdTimeDiff, Int.bmod_def]
    split <;> omega
  have tick : eventTick = 1000 := rfl
  rw [tick] at near ⊢
  rw [Timeval.usecs, Timeval.usecs]
  generalize fwdTimeDiff _ now = diff at wrapped ⊢
  rw [ahead] at near wrapped
  by_cases far : 1000 < (timer.time.sec - now.sec) * 1000 + (timer.time.usec - now.usec).tdiv 1000
  · omega
  · rcases near (Int.not_lt.mp far) with low | ⟨whole, exactly⟩
    · omega
    · rw [exactly, Int.mul_tdiv_cancel_left _ (by decide)] at wrapped
      omega

theorem stopped_right (queue : List FwdTimeout) (sorted : Sorted queue)
    (stops : ∀ timer, queue.head? = some timer → due now timer = false ∧ NotOver now timer) : SweptRight now queue := by
  intro timer there
  cases queue with
  | nil => exact nomatch there
  | cons head rest =>
    obtain ⟨left, fine⟩ := stops head rfl
    have positive : 0 < fwdTimeDiff head.time now := by
      rw [due, decide_eq_false_iff_not, not_not] at left
      exact left
    have later : head.time.usecs ≤ timer.time.usecs := by
      rcases List.mem_cons.mp there with rfl | behind
      · exact Int.le_refl _
      · exact (List.pairwise_cons.mp sorted).1 _ behind
    have sleep : fwdEventNextTimeout (head :: rest) now = min (fwdTimeDiff head.time now) eventTick := by
      rw [fwdEventNextTimeout, if_neg (Int.not_le.mpr positive)]
      split
      · rename_i long
        exact (Int.min_eq_right (Int.le_of_lt long)).symm
      · rename_i short
        exact (Int.min_eq_left (Int.not_lt.mp short)).symm
    have enough := not_over_wait _ head fine positive
    have tick : (0 : Int) < eventTick := by decide
    rw [sleep]
    omega

theorem sweep_keeps (calls : List (List TimerOp)) (queue : List FwdTimeout) (sorted : Sorted queue)
    (order : SweepInOrder now calls queue) :
    Sorted (fwdEventHandleTimeouts now calls queue) ∧ SweptRight now (fwdEventHandleTimeouts now calls queue) := by
  induction calls generalizing queue with
  | nil =>
    have left : Sorted (queue.dropWhile (due now)) := List.Pairwise.sublist (List.dropWhile_sublist _) sorted
    refine ⟨left, stopped_right now _ left fun timer first => ⟨?_, order _ first⟩⟩
    have stop := List.head?_dropWhile_not (due now) queue
    rw [show (queue.dropWhile _).head? = some _ from first] at stop
    exact stop
  | cons ops calls ih =>
    cases queue with
    | nil => exact ⟨sorted, fun _ there => nomatch there⟩
    | cons timer rest =>
      rw [SweepInOrder] at order
      rw [fwdEventHandleTimeouts]
      split at order
      · rename_i fires
        rw [if_pos fires]
        have kept := cancel_sorted _ sorted timer.id
        exact ih _ (ops_sorted _ kept ops order.1) order.2
      · rename_i stops
        rw [if_neg stops]
        refine ⟨sorted, stopped_right now _ sorted fun head first => ?_⟩
        rw [← Option.some.inj first]
        exact ⟨Bool.eq_false_iff.mpr stops, order⟩

theorem step_sorted (queue : List FwdTimeout) (step : TimerStep) (sorted : Sorted queue) (order : StepInOrder queue step) :
    Sorted (timerStep queue step) := by
  cases step with
  | op op => exact op_sorted _ sorted op order
  | sweep now calls => exact (sweep_keeps now _ _ sorted order).1

def TimersInTime (steps : List TimerStep) : Prop := ∀ before now calls behind, steps = before ++ .sweep now calls :: behind →
  SweptRight now (fwdEventHandleTimeouts now calls (run timerStep [] before))

theorem timers_in_time (steps : List TimerStep) (order : AllSteps timerStep StepInOrder [] steps) : TimersInTime steps := by
  rintro before now calls behind rfl
  obtain ⟨first, sweep, _⟩ := (all_steps_append _ _ [] _ _).mp order
  have sorted : Sorted _ :=
    run_keeps _ _ _ [] _ List.Pairwise.nil (fun queue step kept allowed => step_sorted _ step kept allowed) first
  exact (sweep_keeps now _ _ sorted sweep).2

theorem timers_in_time_sample : TimersInTime [.op (.set 1 ⟨0, 0⟩ 10000), .op (.set 2 ⟨0, 0⟩ 15000), .sweep ⟨11, 0⟩ [[.set 3 ⟨11, 0⟩ 10000]]] :=
  timers_in_time _ (by decide)

theorem later_timer_missed : ¬ ∀ steps, TimersInTime steps := by
  intro all
  have right := all _ [.op (.set 1 ⟨0, 0⟩ 120000), .op (.set 2 ⟨0, 0⟩ 10000)]
    ⟨11, 0⟩ [] [] rfl
  have missed := (right ⟨2, ⟨10, 0⟩⟩ (by decide)).1
  exact absurd missed (by decide)

end Codec.Fwd
