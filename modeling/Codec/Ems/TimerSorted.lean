import Codec.Ems.TimerSweep

set_option autoImplicit false

namespace Codec.Ems

open Codec.Lib

def Within (queue : List Timeout) : Prop := queue.Pairwise fun left right => left.time.micros < right.time.micros + 1000

def OpFine (queue : List Timeout) : Op → Prop
  | .set id msecs pos clock => pos = .sort ∧ 0 ≤ msecs ∧ 0 ≤ clock.usec ∧ clock.usec < 1000000 ∧
      ∀ tmp ∈ timeoutCancel queue id, Near tmp.time (expiry clock msecs)
  | .cancel _ => True

instance (queue : List Timeout) (op : Op) : Decidable (OpFine queue op) := by
  rcases op <;> unfold OpFine <;> infer_instance

def CallbackFine (now : Timeval) (next : Option Timeout) (queue : List Timeout) (op : Op) : Prop :=
  OpFine queue op ∧
    match op with
    | .set id msecs _ clock => (∀ item ∈ next, id ≠ item.id) ∧ now.micros ≤ clock.micros ∧ Near (expiry clock msecs) now
    | .cancel id => ∀ item ∈ next, id ≠ item.id

instance (now : Timeval) (next : Option Timeout) (queue : List Timeout) (op : Op) :
    Decidable (CallbackFine now next queue op) := by
  rcases op <;> unfold CallbackFine <;> infer_instance

def SweepFine (queue : List Timeout) (now : Timeval) (acts : List (List Op)) : Prop :=
  (∀ item ∈ queue, Near item.time now) ∧ SweepRuns now (CallbackFine now) acts [] queue

instance (queue : List Timeout) (now : Timeval) (acts : List (List Op)) : Decidable (SweepFine queue now acts) :=
  inferInstanceAs (Decidable (_ ∧ _))

def EventFine : Option (List Timeout) → TimerEvent → Prop
  | none, _ => True
  | some queue, .op op => OpFine queue op
  | some queue, .sweep now acts => SweepFine queue now acts

instance (state : Option (List Timeout)) (event : TimerEvent) : Decidable (EventFine state event) := by
  rcases state <;> rcases event <;> unfold EventFine <;> infer_instance

theorem expiry_micros (clock : Timeval) (msecs : Int) (delay : 0 ≤ msecs) (low : 0 ≤ clock.usec) (high : clock.usec < 1000000) :
    (expiry clock msecs).micros = clock.micros + msecs * 1000 := by
  have seconds : msecs.tdiv 1000 = msecs / 1000 := Int.tdiv_eq_ediv_of_nonneg delay
  have rest : msecs.tmod 1000 = msecs % 1000 := Int.tmod_eq_emod_of_nonneg delay
  rw [expiry, seconds, rest]
  split
  · rw [Timeval.micros, Timeval.micros, Int.tmod_eq_emod_of_nonneg (by omega)]
    dsimp only
    omega
  · rw [Timeval.micros, Timeval.micros]
    dsimp only
    omega

theorem span_due (left right : Timeval) (due : span left right ≤ 0) : left.micros < right.micros + 1000 := by
  have bounds := tdiv_bounds (left.usec - right.usec)
  rw [span] at due
  rw [Timeval.micros, Timeval.micros]
  omega

structure Placement (queue : List Timeout) : Prop where
  ids : (queue.map Timeout.id).Nodup
  within : Within queue

theorem insert_sorted_within (fresh : Timeout) (queue : List Timeout) (within : Within queue)
    (near : ∀ tmp ∈ queue, Near tmp.time fresh.time) : Within (insertSorted fresh queue) := by
  induction queue with
  | nil => exact List.pairwise_singleton _ _
  | cons tmp rest ih =>
    have here := time_diff_near _ _ (near tmp List.mem_cons_self)
    rw [insertSorted]
    by_cases later : 0 < timeDiff tmp.time fresh.time
    · -- What stands behind `tmp` is less than 1 ms before it, and `fresh` is before `tmp`.
      rw [if_pos later]
      have before := span_pos _ _ (here ▸ later)
      refine List.pairwise_cons.mpr ⟨fun item member => ?_, within⟩
      obtain same | there := List.mem_cons.mp member
      · rw [same]
        omega
      · have close := List.rel_of_pairwise_cons within there
        omega
    · rw [if_neg later]
      refine List.pairwise_cons.mpr ⟨fun item member => ?_, ?_⟩
      · obtain same | there := (mem_insert_sorted _ item rest).mp member
        · rw [same]
          exact span_due _ _ (by omega)
        · exact List.rel_of_pairwise_cons within there
      · exact ih within.of_cons fun item there => near item (List.mem_cons_of_mem tmp there)

theorem placement_part (first second : List Timeout) (sub : first.Sublist second) (placed : Placement second) : Placement first :=
  ⟨placed.ids.sublist (sub.map _), placed.within.sublist sub⟩

theorem op_placement (queue : List Timeout) (op : Op) (placed : Placement queue) (fine : OpFine queue op) :
    Placement (applyOp queue op) := by
  have cancelled (id : Nat) : Placement (timeoutCancel _ id) := placement_part _ _ List.filter_sublist placed
  cases op with
  | cancel id => exact cancelled id
  | set id msecs pos clock =>
    obtain ⟨sorts, -, -, -, near⟩ := fine
    rw [applyOp, timeoutSet, sorts, timeoutAdd]
    constructor
    · rw [((insert_sorted_perm _ _).map _).nodup_iff]
      exact List.nodup_cons.mpr ⟨timeout_cancel_absent _ id, (cancelled id).ids⟩
    · exact insert_sorted_within _ _ (cancelled id).within near

variable (queue : List Timeout) (now : Timeval)

theorem within_ahead (item : Timeout) (rest : List Timeout) (within : Within (item :: rest)) (near : Near item.time now)
    (ahead : 0 < timeDiff item.time now) (other : Timeout) (member : other ∈ item :: rest) : ¬ Overdue other now := by
  rw [time_diff_near _ now near] at ahead
  have later := span_pos _ now ahead
  rw [Overdue]
  obtain same | there := List.mem_cons.mp member
  · rw [same]
    omega
  · have close := List.rel_of_pairwise_cons within there
    omega

theorem fine_order : SweepOrder now (CallbackFine now) fun queue => Placement queue ∧ ∀ item ∈ queue, Near item.time now where
  ids _ held := held.1.ids
  part first second sub held := ⟨placement_part _ _ sub held.1, fun item there => held.2 item (sub.subset there)⟩
  ahead item rest held ahead := within_ahead now item rest held.1.within (held.2 item List.mem_cons_self) ahead
  callback next queue op held cursor fine := by
    refine ⟨⟨op_placement _ op held.1 fine.1, ?_⟩, ?_⟩
    · intro item member
      cases op with
      | cancel id => exact held.2 item (List.mem_filter.mp member).1
      | set id msecs pos clock =>
        obtain same | there := List.mem_cons.mp
          ((timeout_add_perm _ _ pos).mem_iff.mp member)
        · rw [same]
          exact fine.2.2.2
        · exact held.2 item (List.mem_filter.mp there).1
    · cases op with
      | cancel id => exact timeout_cancel_cursor now next _ id cursor fine.2
      | set id msecs pos clock =>
        obtain ⟨⟨-, delay, low, high, -⟩, spares, onward, -⟩ := fine
        refine timeout_add_cursor now next _ _ pos (timeout_cancel_cursor now next _ id cursor spares) ?_
        have due := expiry_micros _ _ delay low high
        rw [Overdue]
        dsimp only
        omega

theorem fine_sweep (acts : List (List Op)) (placed : Placement queue) (fine : SweepFine queue now acts) :
    (∃ left, timeoutHandle queue now acts = some left ∧ Placement left ∧ ∀ item ∈ left, ¬ Overdue item now) ∧
      ∀ item ∈ fired now acts [] queue, item.time.micros < now.micros + 1000 := by
  obtain ⟨⟨left, swept, held, inTime⟩, calls⟩ := sweep_rule (fine_order now) acts [] _ ⟨placed, fine.1⟩ nofun fine.2
  refine ⟨⟨left, swept, held.1, inTime⟩, fun item there => ?_⟩
  obtain ⟨alone, due⟩ := calls item there
  rw [time_diff_near _ _ (alone.2 item (List.mem_singleton_self item))] at due
  exact span_due _ now due

theorem sorted_timers_in_time (events : List TimerEvent) (fine : AllSteps timerStep EventFine (some []) events) :
    ∃ queue, run timerStep (some []) events = some queue ∧ Within queue ∧ ∀ now acts, SweepFine queue now acts →
        (∀ item ∈ fired now acts [] queue, item.time.micros < now.micros + 1000) ∧
        ∃ left, timeoutHandle queue now acts = some left ∧ ∀ item ∈ left, ¬ Overdue item now := by
  have step (state : Option _) (event : TimerEvent) (held : ∃ queue, state = some queue ∧ Placement queue)
      (fine : EventFine state event) : ∃ queue, timerStep state event = some queue ∧ Placement queue := by
    obtain ⟨queue, shape, placed⟩ := held
    rw [shape] at fine ⊢
    cases event with
    | op op => exact ⟨applyOp _ op, rfl, op_placement _ op placed fine⟩
    | sweep now acts =>
      obtain ⟨⟨left, swept, kept, -⟩, -⟩ := fine_sweep _ now acts placed fine
      exact ⟨left, swept, kept⟩
  obtain ⟨queue, shape, placed⟩ := run_keeps _ _ _
    _ _ ⟨[], rfl, List.nodup_nil, List.Pairwise.nil⟩ step fine
  refine ⟨queue, shape, placed.within, fun now acts swept => ?_⟩
  obtain ⟨⟨left, handled, -, inTime⟩, calls⟩ := fine_sweep _ now acts placed swept
  exact ⟨calls, left, handled, inTime⟩

theorem sorted_timers_in_time_sample :
    let events : List TimerEvent := [.op (.set 1 3000 .sort ⟨10, 999999⟩), .op (.set 2 1500 .sort ⟨12, 500000⟩), .op (.set 3 0 .sort ⟨12, 600000⟩),
      .op (.cancel 4), .sweep ⟨14, 0⟩ [[.set 3 500 .sort ⟨14, 10⟩], [.set 1 9 .sort ⟨14, 20⟩]]]
    AllSteps timerStep EventFine (some []) events ∧
      ∃ queue, run timerStep (some []) events = some queue ∧ Within queue ∧
        ∀ now acts, SweepFine queue now acts →
          (∀ item ∈ fired now acts [] queue, item.time.micros < now.micros + 1000) ∧
          ∃ left, timeoutHandle queue now acts = some left ∧ ∀ item ∈ left, ¬ Overdue item now := by
  intro events
  have fine : AllSteps timerStep EventFine (some []) events := by decide
  exact ⟨fine, sorted_timers_in_time _ fine⟩

-- A sweep 2^31 ms behind an expiry does not see it; and a callback that renews
-- the saved entry takes the sweep past the one behind it.
theorem sorted_timer_missed :
    (∃ left, timerStep (run timerStep (some []) [.op (.set 1 0 .sort ⟨0, 0⟩)]) (.sweep ⟨2147484, 0⟩ []) = some left ∧
      ∃ item ∈ left, Overdue item ⟨2147484, 0⟩) ∧ ∃ left, timerStep (run timerStep (some [])
        [.op (.set 1 0 .sort ⟨0, 0⟩), .op (.set 2 1000 .sort ⟨0, 0⟩), .op (.set 3 2000 .sort ⟨0, 0⟩)])
        (.sweep ⟨3, 0⟩ [[.set 2 5000 .sort ⟨3, 0⟩]]) = some left ∧ ∃ item ∈ left, Overdue item ⟨3, 0⟩ := by
  refine ⟨⟨[⟨1, ⟨0, 0⟩⟩], ?_, ⟨1, ⟨0, 0⟩⟩, by simp, ?_⟩, [⟨3, ⟨2, 0⟩⟩, ⟨2, ⟨8, 0⟩⟩], ?_, ⟨3, ⟨2, 0⟩⟩, by simp, ?_⟩ <;> decide

end Codec.Ems
