import Codec.Ems.Timer

set_option autoImplicit false

namespace Codec.Ems

open Codec.Lib List

structure Ordered (queue : List Timeout) : Prop where
  ids : (queue.map Timeout.id).Nodup
  sorted : queue.Pairwise fun left right => NoLater left.time right.time

def Placed (tmp fresh : Timeval) : Position → Prop
  | .tail => NoLater tmp fresh
  | .sort => if 0 < timeDiff tmp fresh then NoLater fresh tmp else NoLater tmp fresh
  | .head => False

instance (tmp fresh : Timeval) (pos : Position) : Decidable (Placed tmp fresh pos) := by
  cases pos <;> unfold Placed <;> infer_instance

def OpSound (queue : List Timeout) : Op → Prop
  | .set id msecs pos clock => ∀ tmp ∈ timeoutCancel queue id, Placed tmp.time (expiry clock msecs) pos
  | .cancel _ => True

instance (queue : List Timeout) (op : Op) : Decidable (OpSound queue op) := by
  cases op <;> unfold OpSound <;> infer_instance

def CallbackSound (now : Timeval) (next : Option Timeout) (queue : List Timeout) (op : Op) : Prop :=
  OpSound queue op ∧
    match op with
    | .set id msecs _ clock =>
      (∀ item ∈ next, id ≠ item.id) ∧ Near (expiry clock msecs) now ∧ ¬ Overdue ⟨id, expiry clock msecs⟩ now
    | .cancel id => ∀ item ∈ next, id ≠ item.id

instance (now : Timeval) (next : Option Timeout) (queue : List Timeout) (op : Op) :
    Decidable (CallbackSound now next queue op) := by
  cases op <;> unfold CallbackSound <;> infer_instance

def SweepRuns (now : Timeval) (allowed : Option Timeout → List Timeout → Op → Prop) :
    List (List Op) → List Timeout → List Timeout → Prop
  | [], _, _ => True
  | _ :: _, _, [] => True
  | ops :: acts, before, item :: rest =>
    0 < timeDiff item.time now ∨
      AllSteps applyOp (allowed rest.head?) (before ++ rest) ops ∧
        ∀ next ∈ rest.head?,
          let queue := ops.foldl applyOp (before ++ rest)
          SweepRuns now allowed acts (queue.takeWhile fun other => decide (other.id ≠ next.id))
            (queue.dropWhile fun other => decide (other.id ≠ next.id))

instance decidableSweepRuns (now : Timeval) (allowed : Option Timeout → List Timeout → Op → Prop)
    [∀ next queue op, Decidable (allowed next queue op)] : ∀ acts before rest, Decidable (SweepRuns now allowed acts before rest)
  | [], _, _ => isTrue trivial
  | _ :: _, _, [] => isTrue trivial
  | ops :: acts, before, item :: rest =>
    have _ := decidableSweepRuns now allowed acts
    inferInstanceAs (Decidable (0 < timeDiff item.time now ∨
      AllSteps applyOp (allowed rest.head?) (before ++ rest) ops ∧
        ∀ next ∈ rest.head?,
          let queue := ops.foldl applyOp (before ++ rest)
          SweepRuns now allowed acts (queue.takeWhile fun other => decide (other.id ≠ next.id))
            (queue.dropWhile fun other => decide (other.id ≠ next.id))))

def HandleSound (queue : List Timeout) (now : Timeval) (acts : List (List Op)) : Prop :=
  (∀ item ∈ queue, Near item.time now) ∧ SweepRuns now (CallbackSound now) acts [] queue

instance (queue : List Timeout) (now : Timeval) (acts : List (List Op)) : Decidable (HandleSound queue now acts) :=
  inferInstanceAs (Decidable (_ ∧ _))

def EventSound : Option (List Timeout) → TimerEvent → Prop
  | none, _ => True
  | some queue, .op op => OpSound queue op
  | some queue, .sweep now acts => HandleSound queue now acts

instance (state : Option (List Timeout)) (event : TimerEvent) : Decidable (EventSound state event) := by
  cases state <;> cases event <;> unfold EventSound <;> infer_instance

theorem mem_insert_sorted (fresh item : Timeout) (queue : List Timeout) :
    item ∈ insertSorted fresh queue ↔ item = fresh ∨ item ∈ queue := by
  induction queue with
  | nil => simp [insertSorted]
  | cons tmp rest ih =>
    rw [insertSorted]
    by_cases later : 0 < timeDiff tmp.time fresh.time
    · rw [if_pos later, mem_cons]
    · rw [if_neg later, mem_cons, ih, mem_cons]
      exact or_left_comm

variable (fresh : Timeout) (queue : List Timeout) (now : Timeval) (next : Option Timeout)

theorem insert_sorted_perm : (insertSorted fresh queue).Perm (fresh :: queue) := by
  induction queue with
  | nil => exact Perm.refl _
  | cons tmp rest ih =>
    rw [insertSorted]
    by_cases later : 0 < timeDiff tmp.time fresh.time
    · rw [if_pos later]
    · rw [if_neg later]
      exact (Perm.cons tmp ih).trans (Perm.swap _ tmp rest)

theorem timeout_add_perm (fresh : Timeout) (pos : Position) : (timeoutAdd queue fresh pos).Perm (fresh :: queue) := by
  cases pos with
  | tail => exact perm_append_singleton _ _
  | sort => exact insert_sorted_perm _ _
  | head => exact Perm.refl _

theorem insert_sorted_sorted (sorted : queue.Pairwise fun left right => NoLater left.time right.time)
    (placed : ∀ tmp ∈ queue, Placed tmp.time fresh.time .sort) :
    (insertSorted fresh queue).Pairwise fun left right => NoLater left.time right.time := by
  induction queue with
  | nil => exact pairwise_singleton _ _
  | cons tmp rest ih =>
    have here := placed tmp mem_cons_self
    rw [insertSorted]
    by_cases later : 0 < timeDiff tmp.time fresh.time
    · rw [if_pos later, pairwise_cons]
      rw [Placed, if_pos later] at here
      refine ⟨fun item member => ?_, sorted⟩
      cases member with
      | head => exact here
      | tail _ there => exact no_later_trans _ _ _ here (rel_of_pairwise_cons sorted there)
    · rw [if_neg later, pairwise_cons]
      rw [Placed, if_neg later] at here
      constructor
      · intro item member
        obtain same | there := (mem_insert_sorted _ item rest).mp member
        · rw [same]
          exact here
        · exact rel_of_pairwise_cons sorted there
      · exact ih sorted.of_cons fun item there => placed item (mem_cons_of_mem tmp there)

theorem timeout_cancel_ordered (id : Nat) (ordered : Ordered queue) : Ordered (timeoutCancel queue id) where
  ids := ordered.ids.sublist (filter_sublist.map _)
  sorted := ordered.sorted.sublist filter_sublist

theorem timeout_cancel_absent (id : Nat) : id ∉ (timeoutCancel queue id).map Timeout.id := by
  intro there
  obtain ⟨item, member, same⟩ := mem_map.mp there
  exact of_decide_eq_true (mem_filter.mp member).2 same

theorem timeout_add_ordered (fresh : Timeout) (pos : Position) (ordered : Ordered queue)
    (absent : fresh.id ∉ queue.map Timeout.id) (placed : ∀ tmp ∈ queue, Placed tmp.time fresh.time pos) :
    Ordered (timeoutAdd queue fresh pos) where
  ids := by
    rw [((timeout_add_perm _ _ pos).map _).nodup_iff]
    exact nodup_cons.mpr ⟨absent, ordered.ids⟩
  sorted := by
    cases pos with
    | tail =>
      apply pairwise_append.mpr
      refine ⟨ordered.sorted, pairwise_singleton _ _, fun tmp member item there => ?_⟩
      rw [mem_singleton.mp there]
      exact placed tmp member
    | sort => exact insert_sorted_sorted _ _ ordered.sorted placed
    | head =>
      cases queue with
      | nil => exact pairwise_singleton _ _
      | cons tmp rest => exact (placed tmp mem_cons_self).elim

theorem op_ordered (op : Op) (ordered : Ordered queue) (sound : OpSound queue op) : Ordered (applyOp queue op) := by
  cases op with
  | set id msecs pos clock =>
    apply timeout_add_ordered
    · exact timeout_cancel_ordered _ id ordered
    · exact timeout_cancel_absent _ id
    · exact sound
  | cancel id => exact timeout_cancel_ordered _ id ordered

def AtCursor (now : Timeval) (next : Option Timeout) (queue : List Timeout) : Prop :=
  ∃ front back, queue = front ++ back ∧ back.head? = next ∧ ∀ item ∈ front, ¬ Overdue item now

theorem insert_sorted_around (front back : List Timeout) :
    ∃ front' back', insertSorted fresh (front ++ back) = front' ++ back' ∧ back'.head? = back.head? ∧
      ∀ item ∈ front', item = fresh ∨ item ∈ front := by
  induction front with
  | nil =>
    cases back with
    | nil => exact ⟨[fresh], [], rfl, rfl, fun item member => .inl (mem_singleton.mp member)⟩
    | cons next rest =>
      rw [nil_append, insertSorted]
      by_cases later : 0 < timeDiff next.time fresh.time
      · rw [if_pos later]
        exact ⟨[fresh], next :: rest, rfl, rfl, fun item member => .inl (mem_singleton.mp member)⟩
      · rw [if_neg later]
        exact ⟨[], next :: insertSorted _ rest, rfl, rfl, fun _ absent => absurd absent not_mem_nil⟩
  | cons tmp rest ih =>
    rw [cons_append, insertSorted]
    by_cases later : 0 < timeDiff tmp.time fresh.time
    · rw [if_pos later]
      exact ⟨fresh :: tmp :: rest, back, rfl, rfl, fun item member => mem_cons.mp member⟩
    · rw [if_neg later]
      obtain ⟨front', back', split, head, origin⟩ := ih
      refine ⟨tmp :: front', back', by rw [split, cons_append], head, fun item member => ?_⟩
      cases member with
      | head => exact .inr mem_cons_self
      | tail _ there => exact (origin item there).imp_right (mem_cons_of_mem tmp)

theorem timeout_cancel_cursor (queue : List Timeout) (id : Nat)
    (cursor : AtCursor now next queue) (other : ∀ item ∈ next, id ≠ item.id) : AtCursor now next (timeoutCancel queue id) := by
  obtain ⟨front, back, split, head, fresh⟩ := cursor
  refine ⟨timeoutCancel front id, timeoutCancel back id, ?_, ?_, ?_⟩
  · rw [split]
    exact filter_append ..
  · cases back with
    | nil => exact head
    | cons item rest =>
      have kept : item.id ≠ id := (other item head.symm).symm
      simpa [timeoutCancel, kept] using head
  · intro item member
    exact fresh item (mem_filter.mp member).1

theorem timeout_add_cursor (queue : List Timeout) (fresh : Timeout)
    (pos : Position) (cursor : AtCursor now next queue) (ahead : ¬ Overdue fresh now) :
    AtCursor now next (timeoutAdd queue fresh pos) := by
  obtain ⟨front, back, split, head, inTime⟩ := cursor
  cases pos with
  | tail =>
    cases back with
    | nil =>
      refine ⟨front ++ [fresh], [], by rw [timeoutAdd, split, append_nil, append_nil], head, ?_⟩
      intro item member
      obtain there | new := mem_append.mp member
      · exact inTime item there
      · rw [mem_singleton.mp new]
        exact ahead
    | cons item rest =>
      exact ⟨front, item :: (rest ++ [fresh]), by rw [timeoutAdd, split, append_assoc, cons_append],
        head, inTime⟩
  | sort =>
    obtain ⟨front', back', moved, same, origin⟩ := insert_sorted_around _ _ back
    refine ⟨front', back', by rw [timeoutAdd, split, moved], same.trans head, fun item member => ?_⟩
    obtain new | there := origin item member
    · rw [new]
      exact ahead
    · exact inTime item there
  | head =>
    refine ⟨fresh :: front, back, by rw [timeoutAdd, split, cons_append], head, fun item member => ?_⟩
    cases member with
    | head => exact ahead
    | tail _ there => exact inTime item there

structure Sweeping (now : Timeval) (next : Option Timeout) (queue : List Timeout) : Prop where
  ordered : Ordered queue
  near : ∀ item ∈ queue, Near item.time now
  cursor : AtCursor now next queue

theorem callback_op (queue : List Timeout) (op : Op)
    (sweeping : Sweeping now next queue) (sound : CallbackSound now next queue op) : Sweeping now next (applyOp queue op) := by
  refine ⟨op_ordered _ op sweeping.ordered sound.1, ?_, ?_⟩
  · intro item member
    cases op with
    | set id msecs pos clock =>
      have origin := (timeout_add_perm _ _ pos).mem_iff.mp member
      cases origin with
      | head => exact sound.2.2.1
      | tail _ there => exact sweeping.near item (mem_filter.mp there).1
    | cancel id => exact sweeping.near item (mem_filter.mp member).1
  · cases op with
    | set id msecs pos clock =>
      apply timeout_add_cursor
      · exact timeout_cancel_cursor now next _ id sweeping.cursor sound.2.1
      · exact sound.2.2.2
    | cancel id => exact timeout_cancel_cursor now next _ id sweeping.cursor sound.2

theorem cursor_found (next : Timeout) (queue : List Timeout) (ids : (queue.map Timeout.id).Nodup)
    (cursor : AtCursor now (some next) queue) : next.id ∈ queue.map Timeout.id ∧
      queue.takeWhile (fun other => decide (other.id ≠ next.id)) ++
        queue.dropWhile (fun other => decide (other.id ≠ next.id)) = queue ∧
      ∀ item ∈ queue.takeWhile (fun other => decide (other.id ≠ next.id)), ¬ Overdue item now := by
  obtain ⟨front, back, split, head, fresh⟩ := cursor
  obtain ⟨rest, shape⟩ := head?_eq_some_iff.mp head
  rw [shape] at split
  refine ⟨?_, takeWhile_append_dropWhile, ?_⟩
  · rw [split]
    simp
  · intro item member
    rw [split, map_append, nodup_append] at ids
    have passed : ∀ other ∈ front, decide _ = true := fun other there =>
      decide_eq_true (ids.2.2 _ (mem_map_of_mem there) next.id (by simp))
    rw [split, takeWhile_append_of_pos passed, takeWhile_cons_of_neg (by simp), append_nil] at member
    exact fresh item member

theorem ordered_ahead (item : Timeout) (rest : List Timeout)
    (sorted : (item :: rest).Pairwise fun left right => NoLater left.time right.time)
    (near : Near item.time now) (ahead : 0 < timeDiff item.time now) (other : Timeout)
    (member : other ∈ item :: rest) : ¬ Overdue other now := by
  rw [time_diff_near _ now near] at ahead
  have later := span_pos _ now ahead
  cases member with
  | head =>
    unfold Overdue
    omega
  | tail _ there =>
    have order := (rel_of_pairwise_cons sorted there).2
    unfold Overdue
    omega

theorem ordered_sublist (first second : List Timeout) (sub : first.Sublist second) (ordered : Ordered second) :
    Ordered first where
  ids := ordered.ids.sublist (sub.map _)
  sorted := ordered.sorted.sublist sub

def fired (now : Timeval) : List (List Op) → List Timeout → List Timeout → List Timeout
  | [], _, rest => rest.takeWhile fun item => decide (timeDiff item.time now ≤ 0)
  | _ :: _, _, [] => []
  | ops :: acts, before, item :: rest =>
    if 0 < timeDiff item.time now then []
    else
      let queue := ops.foldl applyOp (before ++ rest)
      match rest.head? with
      | none => [item]
      | some next => item :: fired now acts (queue.takeWhile fun other => decide (other.id ≠ next.id))
          (queue.dropWhile fun other => decide (other.id ≠ next.id))

section Rule

variable (allowed : Option Timeout → List Timeout → Op → Prop) (good : List Timeout → Prop)

structure SweepOrder : Prop where
  ids : ∀ queue, good queue → (queue.map Timeout.id).Nodup
  part : ∀ first second, first.Sublist second → good second → good first
  ahead : ∀ item rest, good (item :: rest) → 0 < timeDiff item.time now → ∀ other ∈ item :: rest, ¬ Overdue other now
  callback : ∀ next queue op, good queue → AtCursor now next queue → allowed next queue op →
    good (applyOp queue op) ∧ AtCursor now next (applyOp queue op)

variable {now allowed good} (order : SweepOrder now allowed good)

include order

theorem stop_ahead (rest : List Timeout) (held : good rest) (other : Timeout)
    (member : other ∈ rest.dropWhile fun item => decide (timeDiff item.time now ≤ 0)) : ¬ Overdue other now := by
  have left := order.part _ _ (dropWhile_sublist fun item => decide (timeDiff item.time now ≤ 0)) held
  cases shape : rest.dropWhile fun item => decide (timeDiff _ now ≤ 0) with
  | nil => rw [shape] at member; exact absurd member not_mem_nil
  | cons item behind =>
    rw [shape] at left member
    refine order.ahead item _ left ?_ _ member
    have stopped := head_dropWhile_not (fun item => decide (timeDiff item.time now ≤ 0)) (l := rest) (by simp [shape])
    simp only [shape, head_cons, decide_eq_false_iff_not] at stopped
    omega

theorem sweep_rule (acts : List (List Op)) (before rest : List Timeout) (held : good (before ++ rest))
    (fresh : ∀ item ∈ before, ¬ Overdue item now) (runs : SweepRuns now allowed acts before rest) :
    (∃ queue, sweep now acts before rest = some queue ∧ good queue ∧ ∀ item ∈ queue, ¬ Overdue item now) ∧
      ∀ item ∈ fired now acts before rest, good [item] ∧ timeDiff item.time now ≤ 0 := by
  induction acts generalizing before rest with
  | nil =>
    refine ⟨⟨_, rfl, ?_, fun item member => ?_⟩, fun item member => ⟨?_, ?_⟩⟩
    · exact order.part _ _ (Sublist.append_left (dropWhile_sublist _) _) held
    · obtain passed | left := mem_append.mp member
      · exact fresh item passed
      · exact stop_ahead order rest (order.part _ _ (sublist_append_right _ rest) held) item left
    · have there : item ∈ before ++ rest := mem_append_right _ ((takeWhile_sublist _).subset member)
      exact order.part _ _ (singleton_sublist.mpr there) held
    · exact of_decide_eq_true (all_eq_true.mp all_takeWhile item member)
  | cons ops acts ih =>
    cases rest with
    | nil =>
      rw [append_nil] at held
      exact ⟨⟨before, rfl, held, fresh⟩, nofun⟩
    | cons item rest =>
      by_cases ahead : 0 < timeDiff item.time now
      · rw [sweep, if_pos ahead, fired, if_pos ahead]
        refine ⟨⟨_, rfl, held, fun other member => ?_⟩, nofun⟩
        obtain passed | left := mem_append.mp member
        · exact fresh _ passed
        · exact order.ahead item rest (order.part _ _ (sublist_append_right _ _) held) ahead _ left
      · rw [sweep, if_neg ahead, fired, if_neg ahead]
        obtain ⟨calls, onward⟩ := runs.resolve_left ahead
        have single : good [item] := order.part _ _ (singleton_sublist.mpr (by simp)) held
        have shorter : (before ++ rest).Sublist _ := Sublist.append_left (sublist_cons_self item rest) _
        obtain ⟨held, cursor⟩ := run_keeps _ _
          (fun queue => good queue ∧ AtCursor now _ queue) _ ops
          ⟨order.part _ _ shorter held, before, rest, rfl, rfl, fresh⟩
          (fun queue op kept allowed => order.callback _ _ op kept.1 kept.2 allowed) calls
        have nowDue : ∀ other ∈ [item], good [other] ∧ timeDiff other.time now ≤ 0 := fun other there => by
          rw [mem_singleton.mp there]
          exact ⟨single, by omega⟩
        change good (ops.foldl _ _) at held
        change AtCursor now _ (ops.foldl _ _) at cursor
        generalize ops.foldl _ _ = queue at held cursor onward ⊢
        cases saved : rest.head? with
        | none =>
          rw [saved] at cursor
          obtain ⟨front, back, split, head, inTime⟩ := cursor
          rw [head?_eq_none_iff.mp head, append_nil] at split
          exact ⟨⟨queue, rfl, held, split ▸ inTime⟩, nowDue⟩
        | some next =>
          rw [saved] at cursor
          obtain ⟨found, whole, passed⟩ := cursor_found now next _ (order.ids _ held) cursor
          dsimp only
          rw [if_pos found]
          obtain ⟨left, behind⟩ := ih _ _ (whole.symm ▸ held) passed (onward next saved)
          refine ⟨left, fun other there => ?_⟩
          obtain first | later := mem_cons.mp there
          · exact nowDue _ (mem_singleton.mpr first)
          · exact behind _ later

end Rule

theorem sound_order : SweepOrder now (CallbackSound now) fun queue => Ordered queue ∧ ∀ item ∈ queue, Near item.time now where
  ids _ held := held.1.ids
  part first second sub held := ⟨ordered_sublist _ _ sub held.1, fun item there => held.2 item (sub.subset there)⟩
  ahead item rest held ahead := ordered_ahead now item rest held.1.sorted (held.2 item mem_cons_self) ahead
  callback next queue op held cursor allowed := by
    obtain ⟨ordered, near, cursor⟩ := callback_op now next _ op ⟨held.1, held.2, cursor⟩ allowed
    exact ⟨⟨ordered, near⟩, cursor⟩

theorem timeout_handle_spec (acts : List (List Op)) (ordered : Ordered queue) (sound : HandleSound queue now acts) :
    ∃ left, timeoutHandle queue now acts = some left ∧ Ordered left ∧ ∀ item ∈ left, ¬ Overdue item now := by
  obtain ⟨⟨left, swept, held, inTime⟩, -⟩ :=
    sweep_rule (sound_order now) acts [] queue ⟨ordered, sound.1⟩ (fun _ absent => absurd absent not_mem_nil) sound.2
  exact ⟨left, swept, held.1, inTime⟩

-- The wait is in milliseconds: the loop wakes up less than one of them late.
def WakesFor (queue : List Timeout) (now : Timeval) (item : Timeout) : Prop :=
  timeoutNext queue now ≤ max 0 (timeDiff item.time now) ∧
    now.micros + timeoutNext queue now * 1000 < max now.micros item.time.micros + 1000

theorem timeout_next_earliest (ordered : Ordered queue)
    (near : ∀ item ∈ queue, Near item.time now) (item : Timeout) (member : item ∈ queue) : WakesFor queue now item := by
  have bound : timeoutNext queue now ≤ max 0 (timeDiff item.time now) := by
    cases queue with
    | nil => exact absurd member not_mem_nil
    | cons first rest =>
      have closer : timeDiff first.time now ≤ timeDiff item.time now := by
        cases member with
        | head => exact Int.le_refl _
        | tail _ there =>
          rw [time_diff_near _ _ (near _ mem_cons_self),
            time_diff_near _ _ (near item (mem_cons_of_mem _ there))]
          exact span_mono _ _ now (rel_of_pairwise_cons ordered.sorted there)
      simp only [timeoutNext]
      split
      · exact Int.le_max_left ..
      · split <;> omega
  refine ⟨bound, ?_⟩
  have exact := span_micros item.time now
  rw [time_diff_near _ _ (near item member)] at bound
  omega

def Kept (state : Option (List Timeout)) : Prop := ∃ queue, state = some queue ∧ Ordered queue

theorem timer_step_kept (state : Option (List Timeout)) (event : TimerEvent) (kept : Kept state)
    (sound : EventSound state event) : Kept (timerStep state event) := by
  obtain ⟨queue, shape, ordered⟩ := kept
  rw [shape] at sound ⊢
  cases event with
  | op op => exact ⟨applyOp _ op, rfl, op_ordered _ op ordered sound⟩
  | sweep now acts =>
    obtain ⟨left, swept, kept, -⟩ := timeout_handle_spec _ now acts ordered sound
    exact ⟨left, swept, kept⟩

theorem sweeps_leave_nothing_overdue (events : List TimerEvent) (sound : AllSteps timerStep EventSound (some []) events) :
    ∃ queue, run timerStep (some []) events = some queue ∧ (∀ now acts, HandleSound queue now acts →
        ∃ left, timeoutHandle queue now acts = some left ∧ ∀ item ∈ left, ¬ Overdue item now) ∧
      ∀ now, (∀ item ∈ queue, Near item.time now) → ∀ item ∈ queue, WakesFor queue now item := by
  have empty : Ordered [] := ⟨nodup_nil, Pairwise.nil⟩
  obtain ⟨queue, shape, ordered⟩ :=
    run_keeps _ _ Kept _ _ ⟨[], rfl, empty⟩ timer_step_kept sound
  refine ⟨queue, shape, fun now acts allowed => ?_, fun now near => ?_⟩
  · obtain ⟨left, swept, -, inTime⟩ := timeout_handle_spec _ now acts ordered allowed
    exact ⟨left, swept, inTime⟩
  · exact timeout_next_earliest _ now ordered near

theorem sweeps_leave_nothing_overdue_sample : AllSteps timerStep EventSound (some [])
        [.op (sessTimeoutSetSorted 1 3000 ⟨10, 0⟩), .op (sessTimeoutSetSorted 2 1500 ⟨10, 400⟩),
          .op (sessTimeoutSet 3 tsessTimeoutFlow ⟨11, 0⟩), .op (.cancel 4),
          .sweep ⟨12, 0⟩ [[sessTimeoutSetSorted 2 5000 ⟨12, 90⟩, .cancel 3]], .sweep ⟨13, 5⟩ []] ∧
      ∃ queue, run timerStep (some []) [.op (sessTimeoutSetSorted 1 3000 ⟨10, 0⟩), .op (sessTimeoutSetSorted 2 1500 ⟨10, 400⟩),
            .op (sessTimeoutSet 3 tsessTimeoutFlow ⟨11, 0⟩), .op (.cancel 4),
            .sweep ⟨12, 0⟩ [[sessTimeoutSetSorted 2 5000 ⟨12, 90⟩, .cancel 3]], .sweep ⟨13, 5⟩ []] = some queue ∧
        (∀ now acts, HandleSound queue now acts →
          ∃ left, timeoutHandle queue now acts = some left ∧ ∀ item ∈ left, ¬ Overdue item now) ∧
        ∀ now, (∀ item ∈ queue, Near item.time now) → ∀ item ∈ queue, WakesFor queue now item := by
  have sound : AllSteps timerStep EventSound (some [])
      [.op (sessTimeoutSetSorted 1 3000 ⟨10, 0⟩), .op (sessTimeoutSetSorted 2 1500 ⟨10, 400⟩),
        .op (sessTimeoutSet 3 tsessTimeoutFlow ⟨11, 0⟩), .op (.cancel 4),
        .sweep ⟨12, 0⟩ [[sessTimeoutSetSorted 2 5000 ⟨12, 90⟩, .cancel 3]], .sweep ⟨13, 5⟩ []] := by
    decide
  exact ⟨sound, sweeps_leave_nothing_overdue _ sound⟩

theorem appended_behind_a_later_timeout : (∃ queue left, run timerStep (some [])
        [.op (sessTimeoutSetSorted 1 300000 ⟨0, 0⟩), .op (sessTimeoutSet 2 tsessTimeoutFlow ⟨1, 0⟩)] = some queue ∧
      timeoutHandle queue ⟨122, 0⟩ [] = some left ∧ ∃ item ∈ left, Overdue item ⟨122, 0⟩) ∧ ∃ queue, run timerStep (some [])
        [.op (sessTimeoutSetSorted 1 300000 ⟨0, 0⟩), .op (sessTimeoutSet 2 tsessTimeoutFlow ⟨1, 0⟩)] = some queue ∧
      ∃ item ∈ queue, max 0 (timeDiff item.time ⟨120, 500000⟩) < timeoutNext queue ⟨120, 500000⟩ := by
  have reached : run timerStep (some [])
      [.op (sessTimeoutSetSorted 1 300000 ⟨0, 0⟩), .op (sessTimeoutSet 2 tsessTimeoutFlow ⟨1, 0⟩)] =
        some [⟨1, ⟨300, 0⟩⟩, ⟨2, ⟨121, 0⟩⟩] := by
    decide
  have swept : timeoutHandle [⟨1, ⟨300, 0⟩⟩, ⟨2, ⟨121, 0⟩⟩] ⟨122, 0⟩ [] = some [⟨1, ⟨300, 0⟩⟩, ⟨2, ⟨121, 0⟩⟩] := by decide
  constructor
  · exact ⟨_, _, reached, swept, ⟨2, ⟨121, 0⟩⟩, by simp, by decide⟩
  · exact ⟨_, reached, ⟨2, ⟨121, 0⟩⟩, by simp, by decide⟩

end Codec.Ems
