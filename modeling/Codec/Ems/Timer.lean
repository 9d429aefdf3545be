import Codec.Lib.Runs
import Mathlib.Data.List.Nodup

set_option autoImplicit false

namespace Codec.Ems

-- struct timeval. What ems_getboottime fills in has microseconds below a
-- second; what ems_timeout_set computes from it need not.
structure Timeval where
  sec : Int
  usec : Int
  deriving DecidableEq, Repr

-- ems_timeout: `pending` is YES exactly while the entry is linked, so it is
-- being in the queue. The callback is told by its timeout's identity.
structure Timeout where
  id : Nat
  time : Timeval
  deriving DecidableEq, Repr

variable (queue : List Timeout) (left right : Timeval)

inductive Position where
  | tail | sort | head
  deriving DecidableEq, Repr

def span : Int := (left.sec - right.sec) * 1000 + (left.usec - right.usec).tdiv 1000

def timeDiff : Int := (span left right).bmod 4294967296

def insertSorted (fresh : Timeout) : List Timeout → List Timeout
  | [] => [fresh]
  | tmp :: rest => if 0 < timeDiff tmp.time fresh.time then fresh :: tmp :: rest else tmp :: insertSorted fresh rest

def timeoutAdd (fresh : Timeout) : Position → List Timeout
  | .sort => insertSorted fresh queue
  | .head => fresh :: queue
  | .tail => queue ++ [fresh]

def timeoutCancel (id : Nat) : List Timeout := queue.filter fun item => decide (item.id ≠ id)

-- The time ems_timeout_set writes; a sum of exactly one second is not carried.
def expiry (clock : Timeval) (msecs : Int) : Timeval :=
  let sec := clock.sec + msecs.tdiv 1000
  let usec := clock.usec + msecs.tmod 1000 * 1000
  if 1000000 < usec then ⟨sec + 1, usec.tmod 1000000⟩ else ⟨sec, usec⟩

def timeoutSet (id : Nat) (msecs : Int) (pos : Position) (clock : Timeval) : List Timeout :=
  timeoutAdd (timeoutCancel queue id) ⟨id, expiry clock msecs⟩ pos

inductive Op where
  | set (id : Nat) (msecs : Int) (pos : Position) (clock : Timeval)
  | cancel (id : Nat)
  deriving DecidableEq, Repr

def applyOp : Op → List Timeout
  | .set id msecs pos clock => timeoutSet queue id msecs pos clock
  | .cancel id => timeoutCancel queue id

-- The loop of ems_timeout_handle from the entry the cursor is on: `before`
-- has been passed (by an insertion of a callback), `rest` starts at the
-- cursor. The next element of `acts` is what the callback of the entry just
-- taken out does; callbacks behind the last element do nothing. The loop has
-- saved the next entry before the callback and goes on from there, wherever
-- it then stands; a saved entry that was unlinked is a fault.
def sweep (now : Timeval) : List (List Op) → List Timeout → List Timeout → Option (List Timeout)
  | [], before, rest => some (before ++ rest.dropWhile fun item => decide (timeDiff item.time now ≤ 0))
  | _ :: _, before, [] => some before
  | ops :: acts, before, item :: rest =>
    if 0 < timeDiff item.time now then some (before ++ item :: rest)
    else
      let queue := ops.foldl applyOp (before ++ rest)
      match rest.head? with
      | none => some queue
      | some next =>
        if next.id ∈ queue.map Timeout.id then
          sweep now acts (queue.takeWhile fun other => decide (other.id ≠ next.id))
            (queue.dropWhile fun other => decide (other.id ≠ next.id))
        else none

def timeoutHandle (now : Timeval) (acts : List (List Op)) : Option (List Timeout) :=
  sweep now acts [] queue

def timeoutTick : Int := 1000

def timeoutNext (now : Timeval) : Int :=
  match queue with
  | [] => timeoutTick
  | item :: _ =>
    let diff := timeDiff item.time now
    if diff ≤ 0 then 0 else if timeoutTick < diff then timeoutTick else diff

def sessTimeoutSet (id : Nat) (msecs : Int) (clock : Timeval) : Op := .set id msecs .tail clock

def sessTimeoutSetSorted (id : Nat) (msecs : Int) (clock : Timeval) : Op := .set id msecs .sort clock

-- The timeout tsess_normal renews on every event of a web tunnel's session.
def tsessTimeoutFlow : Int := 120000

inductive TimerEvent where
  | op (op : Op)
  | sweep (now : Timeval) (acts : List (List Op))
  deriving DecidableEq, Repr

def timerStep : Option (List Timeout) → TimerEvent → Option (List Timeout)
  | none, _ => none
  | some queue, .op op => some (applyOp queue op)
  | some queue, .sweep now acts => timeoutHandle queue now acts

def Timeval.micros (time : Timeval) : Int := time.sec * 1000000 + time.usec

def NoLater : Prop := left.sec ≤ right.sec ∧ left.micros ≤ right.micros

instance (left right : Timeval) : Decidable (NoLater left right) := inferInstanceAs (Decidable (_ ∧ _))

def Near : Prop := -2147483648 ≤ span left right ∧ span left right < 2147483648

instance (left right : Timeval) : Decidable (Near left right) := inferInstanceAs (Decidable (_ ∧ _))

def Overdue (item : Timeout) (now : Timeval) : Prop := item.time.micros + 1000 ≤ now.micros

instance (item : Timeout) (now : Timeval) : Decidable (Overdue item now) := inferInstanceAs (Decidable (_ ≤ _))

theorem tdiv_bounds (value : Int) :
    (0 ≤ value → 0 ≤ value.tdiv 1000 ∧ 1000 * value.tdiv 1000 ≤ value ∧ value < 1000 * value.tdiv 1000 + 1000) ∧
      (value ≤ 0 → value.tdiv 1000 ≤ 0 ∧ value ≤ 1000 * value.tdiv 1000 ∧ 1000 * value.tdiv 1000 < value + 1000) := by
  constructor
  · intro high
    rw [Int.tdiv_eq_ediv_of_nonneg high]
    omega
  · intro low
    have flipped : value.tdiv 1000 = -((-value).tdiv 1000) := by rw [Int.neg_tdiv, Int.neg_neg]
    rw [flipped, Int.tdiv_eq_ediv_of_nonneg (by omega)]
    omega

theorem time_diff_near (near : Near left right) : timeDiff left right = span left right := by
  apply Int.bmod_eq_of_le
  · exact near.1
  · exact near.2

theorem no_later_trans (first second third : Timeval) (left : NoLater first second) (right : NoLater second third) :
    NoLater first third :=
  ⟨Int.le_trans left.1 right.1, Int.le_trans left.2 right.2⟩

theorem span_mono (left right now : Timeval) (order : NoLater left right) : span left now ≤ span right now := by
  obtain ⟨seconds, moments⟩ := order
  have first := tdiv_bounds (left.usec - now.usec)
  have second := tdiv_bounds (right.usec - now.usec)
  simp only [span, Timeval.micros] at *
  omega

theorem span_micros : span left right * 1000 < left.micros - right.micros + 1000 := by
  have bounds := tdiv_bounds (left.usec - right.usec)
  simp only [span, Timeval.micros]
  omega

theorem span_pos (positive : 0 < span left right) : right.micros < left.micros := by
  have rounded := span_micros left right
  omega

end Codec.Ems
