import Codec.Ems.TimerSweep

set_option autoImplicit false

namespace Codec.Ems

open List

-- What a callback does to the timers: ems_timeout_set and ems_timeout_cancel,
-- or ems_session_destroy of a timeout's owner, which cancels it first.
inductive Act where
  | timer (op : Op)
  | destroy (id : Nat)
  deriving DecidableEq, Repr

def Act.effect : Act → Op
  | .timer change => change
  | .destroy id => .cancel id

-- The queue during a sweep, and the timeouts that callbacks of this sweep
-- have cancelled or freed and that have not been set again since.
structure Timers where
  queue : List Timeout
  cancelled : List Nat
  destroyed : List Nat
  deriving DecidableEq, Repr

def Timers.apply (timers : Timers) (act : Act) : Timers :=
  let queue := applyOp timers.queue act.effect
  match act with
  | .timer (.set id _ _ _) => ⟨queue, timers.cancelled.filter (· ≠ id), timers.destroyed.filter (· ≠ id)⟩
  | .timer (.cancel id) => ⟨queue, id :: timers.cancelled, timers.destroyed⟩
  | .destroy id => ⟨queue, timers.cancelled, id :: timers.destroyed⟩

-- ems_timeout_handle reads the time and the link of a timeout or calls it;
-- `cancelled` and `destroyed` are those of the moment.
structure Access where
  id : Nat
  called : Bool
  cancelled : List Nat
  destroyed : List Nat
  deriving DecidableEq, Repr

def Access.Sound (access : Access) : Prop := access.id ∉ access.cancelled ∧ access.id ∉ access.destroyed

instance decidableAccessSound (access : Access) : Decidable access.Sound := inferInstanceAs (Decidable (_ ∧ _))

def Timers.access (timers : Timers) (id : Nat) (called : Bool) : Access := ⟨id, called, timers.cancelled, timers.destroyed⟩

def sweepQuiet (now : Timeval) (timers : Timers) : List Timeout → List Access
  | [] => []
  | item :: rest =>
    if 0 < timeDiff item.time now then [timers.access item.id false]
    else timers.access item.id false :: timers.access item.id true :: sweepQuiet now timers rest

-- The saved entry was unlinked behind the loop's back. It is read, and called
-- if its own memory still says that it is due; where its links lead from
-- there is not the queue's order any more.
def sweepStale (now : Timeval) (timers : Timers) (next : Timeout) : List Access :=
  if next.id ∈ timers.destroyed ∨ 0 < timeDiff next.time now then [timers.access next.id false]
  else [timers.access next.id false, timers.access next.id true]

-- The loop of ems_timeout_handle as `sweep` has it, with what it touches.
def sweepAccesses (now : Timeval) : List (List Act) → List Timeout → List Timeout → Timers → List Access
  | [], _, rest, timers => sweepQuiet now timers rest
  | _ :: _, _, [], _ => []
  | acts :: more, before, item :: rest, timers =>
    if 0 < timeDiff item.time now then [timers.access item.id false]
    else
      let after := acts.foldl Timers.apply { timers with queue := before ++ rest }
      timers.access item.id false :: timers.access item.id true ::
        match rest.head? with
        | none => []
        | some next =>
          if next.id ∈ after.queue.map Timeout.id then
            sweepAccesses now more (after.queue.takeWhile fun other => decide (other.id ≠ next.id))
              (after.queue.dropWhile fun other => decide (other.id ≠ next.id)) after
          else sweepStale now after next

def handleAccesses (queue : List Timeout) (now : Timeval) (acts : List (List Act)) : List Access :=
  sweepAccesses now acts [] queue ⟨queue, [], []⟩

def linkedAfter (id : Nat) (linked : Bool) (act : Act) : Bool :=
  match act.effect with
  | .set other _ _ _ => linked || decide (other = id)
  | .cancel other => linked && decide (other ≠ id)

def Spares (id : Nat) (acts : List Act) : Prop := acts.foldl (linkedAfter id) true = true

instance (id : Nat) (acts : List Act) : Decidable (Spares id acts) := inferInstanceAs (Decidable (_ = _))

def SparesNext (now : Timeval) : List (List Act) → List Timeout → List Timeout → Prop
  | [], _, _ => True
  | _ :: _, _, [] => True
  | acts :: more, before, item :: rest =>
    0 < timeDiff item.time now ∨
      ∀ next ∈ rest.head?,
        Spares next.id acts ∧
          let queue := (acts.map Act.effect).foldl applyOp (before ++ rest)
          SparesNext now more (queue.takeWhile fun other => decide (other.id ≠ next.id))
            (queue.dropWhile fun other => decide (other.id ≠ next.id))

def tunnelStopAll (sess : Nat) (listSess : List Nat) : List Act := .timer (.cancel sess) :: listSess.map .destroy

def tunnelErr (sess : Nat) (listSess : List Nat) (clock : Timeval) : List Act :=
  tunnelStopAll sess listSess ++ [.timer (sessTimeoutSetSorted sess 5000 clock)]

variable (acts : List Act) (now : Timeval) (timers : Timers) (id : Nat)

@[simp] theorem apply_queue (act : Act) : (timers.apply act).queue = applyOp timers.queue act.effect := by
  unfold Timers.apply
  split <;> rfl

theorem foldl_queue : (acts.foldl Timers.apply timers).queue = (acts.map Act.effect).foldl applyOp timers.queue := by
  induction acts generalizing timers with
  | nil => rfl
  | cons act rest ih => rw [foldl_cons, ih, apply_queue, map_cons, foldl_cons]

theorem timeout_cancel_linked (queue : List Timeout) (id other : Nat) :
    id ∈ (timeoutCancel queue other).map Timeout.id ↔ id ∈ queue.map Timeout.id ∧ other ≠ id := by
  simp only [timeoutCancel, mem_map, mem_filter, decide_eq_true_eq]
  constructor
  · rintro ⟨item, ⟨there, different⟩, rfl⟩
    exact ⟨⟨item, there, rfl⟩, Ne.symm different⟩
  · rintro ⟨⟨item, there, rfl⟩, different⟩
    exact ⟨item, ⟨there, Ne.symm different⟩, rfl⟩

theorem timeout_set_linked (queue : List Timeout) (id other : Nat) (msecs : Int) (pos : Position) (clock : Timeval) :
    id ∈ (timeoutSet queue other msecs pos clock).map Timeout.id ↔ id ∈ queue.map Timeout.id ∨ other = id := by
  have members := ((timeout_add_perm (timeoutCancel queue other) ⟨other, expiry clock msecs⟩ pos).map
    Timeout.id).mem_iff (a := id)
  rw [map_cons, mem_cons, timeout_cancel_linked] at members
  rw [timeoutSet, members]
  by_cases same : other = id
  · simp [same]
  · simp [same, Ne.symm same]

def Timers.linked (timers : Timers) (id : Nat) : Bool := decide (id ∈ timers.queue.map Timeout.id)

def Timers.alive (timers : Timers) (id : Nat) : Bool := decide (id ∉ timers.cancelled ∧ id ∉ timers.destroyed)

theorem access_sound (called : Bool) : (timers.access id called).Sound ↔ timers.alive id = true := decide_eq_true_iff.symm

theorem apply_linked (act : Act) : (timers.apply act).linked id = linkedAfter id (timers.linked id) act := by
  unfold linkedAfter Timers.linked
  rw [apply_queue]
  cases act.effect with
  | set other msecs pos clock => simp only [← Bool.decide_or, applyOp, timeout_set_linked]
  | cancel other => simp only [← Bool.decide_and, applyOp, timeout_cancel_linked]

theorem apply_alive (act : Act) : (timers.apply act).alive id = linkedAfter id (timers.alive id) act := by
  unfold linkedAfter Timers.alive
  cases act with
  | timer change =>
    cases change with
    | set other msecs pos clock =>
      simp only [Timers.apply, Act.effect, ← Bool.decide_or, decide_eq_decide, mem_filter, decide_eq_true_iff]
      grind
    | cancel other =>
      simp only [Timers.apply, Act.effect, ← Bool.decide_and, decide_eq_decide, mem_cons]
      grind
  | destroy other =>
    simp only [Timers.apply, Act.effect, ← Bool.decide_and, decide_eq_decide, mem_cons]
    grind

theorem foldl_linked : (acts.foldl Timers.apply timers).linked id = acts.foldl (linkedAfter id) (timers.linked id) :=
  (foldl_hom _ fun timers act => (apply_linked timers id act).symm).symm

theorem foldl_alive : (acts.foldl Timers.apply timers).alive id = acts.foldl (linkedAfter id) (timers.alive id) :=
  (foldl_hom _ fun timers act => (apply_alive timers id act).symm).symm

theorem linked_after_mono (acts : List Act) (first second : Bool) (imp : first = true → second = true) :
    acts.foldl (linkedAfter id) first = true → acts.foldl (linkedAfter id) second = true := by
  induction acts generalizing first second with
  | nil => exact imp
  | cons act rest ih =>
    apply ih
    unfold linkedAfter
    cases act.effect with
    | set other msecs pos clock =>
      rw [Bool.or_eq_true, Bool.or_eq_true]
      exact Or.imp_left imp
    | cancel other =>
      rw [Bool.and_eq_true, Bool.and_eq_true]
      exact And.imp_left imp

def AllSound (log : List Access) : Prop := ∀ access ∈ log, access.Sound

instance (log : List Access) : Decidable (AllSound log) := inferInstanceAs (Decidable (∀ _ ∈ _, _))

theorem all_sound_cons (access : Access) (log : List Access) :
    AllSound (access :: log) ↔ access.Sound ∧ AllSound log := forall_mem_cons

theorem sweep_quiet_sound (rest : List Timeout)
    (alive : ∀ item ∈ rest, timers.alive item.id = true) : AllSound (sweepQuiet now timers rest) := by
  induction rest with
  | nil => exact forall_mem_nil _
  | cons item rest ih =>
    have here (called : Bool) : (timers.access _ _).Sound := (access_sound _ _ called).mpr (alive item mem_cons_self)
    have others := ih fun other there => alive _ (mem_cons_of_mem item there)
    rw [sweepQuiet]
    by_cases later : 0 < timeDiff item.time now
    · rw [if_pos later, all_sound_cons]
      exact ⟨here _, forall_mem_nil _⟩
    · rw [if_neg later, all_sound_cons, all_sound_cons]
      exact ⟨here _, here true, others⟩

theorem sweep_stale_unsound (next : Timeout) (gone : timers.alive next.id = false) :
    ¬ AllSound (sweepStale now timers next) := by
  intro sound
  have first : timers.access next.id false ∈ sweepStale now timers next := by
    unfold sweepStale
    split <;> exact mem_cons_self
  have alive := (access_sound _ _ _).mp (sound _ first)
  exact Bool.false_ne_true (gone.symm.trans alive)

theorem callback_sound_iff (callback : List Act) (more : List (List Act)) (next : Timeout)
    (opening : Timers) (present : opening.linked next.id = true)
    (survives : ∀ id, opening.linked id = true → opening.alive id = true)
    (onward : ∀ before rest (timers : Timers), (∀ item ∈ before ++ rest, timers.alive item.id = true) →
      (AllSound (sweepAccesses now more before rest timers) ↔ SparesNext now more before rest)) :
    let after := callback.foldl Timers.apply opening
    let queue := (callback.map Act.effect).foldl applyOp opening.queue
    AllSound (if next.id ∈ after.queue.map Timeout.id then
        sweepAccesses now more (after.queue.takeWhile fun other => decide (other.id ≠ next.id))
          (after.queue.dropWhile fun other => decide (other.id ≠ next.id)) after
      else sweepStale now after next) ↔
      Spares next.id callback ∧
        SparesNext now more (queue.takeWhile fun other => decide (other.id ≠ next.id))
          (queue.dropWhile fun other => decide (other.id ≠ next.id)) := by
  intro after queue
  have kept : next.id ∈ after.queue.map Timeout.id ↔ Spares next.id callback := by
    have linked := foldl_linked callback opening next.id
    rw [present, Timers.linked, Bool.eq_iff_iff, decide_eq_true_iff] at linked
    exact linked
  have same : after.queue = queue := foldl_queue _ _
  by_cases spared : Spares next.id callback
  · rw [if_pos (kept.mpr spared), and_iff_right spared, ← same]
    apply onward
    intro item there
    rw [takeWhile_append_dropWhile] at there
    have linked : after.linked _ = true := decide_eq_true (mem_map_of_mem there)
    rw [foldl_linked] at linked
    rw [foldl_alive]
    exact linked_after_mono _ _ _ _ (survives _) linked
  · rw [if_neg (fun there => spared (kept.mp there))]
    apply iff_of_false
    · apply sweep_stale_unsound
      rw [foldl_alive, survives _ present]
      exact Bool.eq_false_iff.mpr spared
    · exact fun both => spared both.1

theorem sweep_sound_iff (acts : List (List Act)) (before rest : List Timeout) (timers : Timers)
    (alive : ∀ item ∈ before ++ rest, timers.alive item.id = true) :
    AllSound (sweepAccesses now acts before rest timers) ↔ SparesNext now acts before rest := by
  induction acts generalizing before rest timers with
  | nil =>
    have quiet := sweep_quiet_sound now _ rest fun item there => alive item (mem_append_right _ there)
    simpa only [sweepAccesses, SparesNext, iff_true] using quiet
  | cons callback more ih =>
    cases rest with
    | nil => simp only [sweepAccesses, SparesNext, AllSound, not_mem_nil, false_implies, implies_true]
    | cons item rest =>
      have here (called : Bool) : (timers.access _ _).Sound :=
        (access_sound _ _ called).mpr (alive item (mem_append_right _ mem_cons_self))
      have others : ∀ other ∈ before ++ rest, timers.alive other.id = true := by
        intro other there
        apply alive _
        rw [mem_append] at there ⊢
        exact there.imp_right (mem_cons_of_mem item)
      rw [sweepAccesses, SparesNext]
      by_cases later : 0 < timeDiff item.time now
      · rw [if_pos later, all_sound_cons]
        exact iff_of_true ⟨here _, forall_mem_nil _⟩ (.inl later)
      · rw [if_neg later, all_sound_cons, all_sound_cons, or_iff_right later, and_iff_right (here _),
          and_iff_right (here true)]
        cases rest with
        | nil => simp [AllSound]
        | cons next rest =>
          have present : (Timers.mk (before ++ next :: rest) timers.cancelled timers.destroyed).linked _ = true :=
            decide_eq_true (mem_map_of_mem (mem_append_right _ mem_cons_self))
          have survives (id : Nat) (linked :
              (Timers.mk (before ++ next :: rest) timers.cancelled timers.destroyed).linked id = true) :
              timers.alive id = true := by
            obtain ⟨other, among, rfl⟩ := mem_map.mp (of_decide_eq_true linked)
            exact others _ among
          simp only [head?_cons, Option.mem_some_iff, forall_eq']
          exact callback_sound_iff now _ more next _ present survives ih

theorem swept_timeouts_alive (queue : List Timeout) (now : Timeval) (acts : List (List Act)) :
    AllSound (handleAccesses queue now acts) ↔ SparesNext now acts [] queue := by
  apply sweep_sound_iff
  intro item _
  exact decide_eq_true ⟨not_mem_nil, not_mem_nil⟩

-- The heartbeat of the tunnel 1 has run out, and so has the flow timeout of
-- its session 2. tunnel_to_hb frees the session, which the sweep then visits.
theorem stop_all_frees_saved : ¬ ∀ queue now acts, AllSound (handleAccesses queue now acts) := by
  intro claim
  have log := claim [⟨1, 10, 0⟩, ⟨2, 10, 0⟩] ⟨11, 0⟩ [tunnelErr 1 [2] ⟨11, 0⟩]
  revert log
  decide

end Codec.Ems
