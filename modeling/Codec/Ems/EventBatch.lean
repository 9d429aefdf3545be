import Codec.Ems.Event

set_option autoImplicit false

namespace Codec.Ems

open Codec.Lib

def BatchSafe (ev : Eventer) (batch : List Report) : Prop := ∀ acts, ∀ dispatch ∈ handleBatch ev batch acts, dispatch.Sound

def BehindRegistered (ev : Eventer) : List Report → Prop
  | [] => True
  | report :: rest =>
    if report.any = true ∧ (ev.sessions report.owner).evt.cb = true then
      ∀ later ∈ rest, later.any = true → (ev.sessions later.owner).evt.reg = true
    else BehindRegistered ev rest

instance decidableBehindRegistered (ev : Eventer) : ∀ batch, Decidable (BehindRegistered ev batch)
  | [] => isTrue trivial
  | report :: rest =>
    have _ := decidableBehindRegistered ev rest
    inferInstanceAs (Decidable (if report.any = true ∧ (ev.sessions report.owner).evt.cb = true then
      ∀ later ∈ rest, later.any = true → (ev.sessions later.owner).evt.reg = true
    else BehindRegistered ev rest))

def Loop.Kept (loop : Loop) (id : Nat) : Prop := id ∈ loop.cleared ∨ ((loop.ev.sessions id).evt.reg = true ∧ id ∉ loop.gone)

variable (ev : Eventer) (loop : Loop) (id other : Nat) (report : Report) (rest : List Report) (acts : List (List Call))

@[simp] theorem loop_del_gone (id : Nat) : (loop.del id).gone = loop.gone := by
  unfold Loop.del
  split <;> rfl

theorem loop_del_kept (kept : loop.Kept other) : (loop.del id).Kept other := by
  unfold Loop.del
  by_cases off : (loop.ev.sessions id).evt.reg = false
  · rwa [if_pos off]
  · rw [if_neg off]
    by_cases same : other = id
    · exact .inl (same ▸ List.mem_cons_self)
    · apply kept.imp (List.mem_cons_of_mem id)
      intro both
      rwa [evt_del_frame _ id _ same]

theorem loop_del_clears (id : Nat) (kept : loop.Kept id) : id ∈ (loop.del id).cleared := by
  unfold Loop.del
  by_cases off : (loop.ev.sessions id).evt.reg = false
  · rw [if_pos off]
    exact kept.resolve_right fun both => Bool.false_ne_true (off.symm.trans both.1)
  · rw [if_neg off]
    exact List.mem_cons_self

theorem kept_of_reg (ev : Eventer) (id : Nat) (kept : loop.Kept id)
    (on : (loop.ev.sessions id).evt.reg = true → (ev.sessions id).evt.reg = true) :
    Loop.Kept ⟨ev, loop.cleared, loop.gone⟩ id :=
  kept.imp_right (And.imp_left on)

theorem loop_call_kept (request : Call) (other : Nat) (kept : loop.Kept other) : (loop.call request).Kept other := by
  cases request with
  | setEvent id flg =>
    apply kept_of_reg loop _ _ kept
    by_cases same : other = id
    · rw [same]
      exact sess_event_set_reg _ id flg
    · exact fun on => (congrArg (·.evt.reg) (sess_event_set_frame _ id flg _ same)).trans on
  | setfd id fd =>
    apply kept_of_reg loop _ _ kept
    by_cases same : other = id
    · rw [same]
      exact fun on => (congrArg _ (sock_setfd_evt _ id fd)).trans on
    · exact fun on => (congrArg (·.evt.reg) (sock_setfd_frame _ id fd _ same)).trans on
  | close id =>
    apply kept_of_reg loop _ _ kept
    by_cases same : other = id
    · rw [same]
      exact fun on => (congrArg (·.evt.reg) (sock_close_same _ id)).trans on
    · exact fun on => (congrArg (·.evt.reg) (sock_close_frame _ id _ same)).trans on
  | cancelEvent id =>
    by_cases same : other = id
    · exact .inl (same ▸ loop_del_clears loop id (same ▸ kept))
    · apply (loop_del_kept loop id _ kept).imp_right
      rw [loop_del_gone]
      rintro ⟨on, alive⟩
      exact ⟨on, List.not_mem_cons_of_ne_of_not_mem same alive⟩
  | destroy id =>
    by_cases same : other = id
    · exact .inl (same ▸ loop_del_clears loop id (same ▸ kept))
    · apply (loop_del_kept loop id _ kept).imp_right
      rw [loop_del_gone]
      rintro ⟨on, alive⟩
      refine ⟨?_, List.not_mem_cons_of_ne_of_not_mem same alive⟩
      change (((sockClose _ id).put id _).sessions _).evt.reg = true
      rwa [put_other _ _ _ _ same, sock_close_frame _ _ _ same]

theorem calls_kept (requests : List Call) (loop : Loop) (id : Nat) (kept : loop.Kept id) :
    (requests.foldl Loop.call loop).Kept id := by
  induction requests generalizing loop with
  | nil => exact kept
  | cons request rest ih => exact ih _ (loop_call_kept loop _ id kept)

theorem note_kept (id : Nat) (kept : loop.Kept id) : (loop.note report).Kept id := by
  have noted (evt : EventFd) (same : evt.reg = (loop.ev.sessions report.owner).evt.reg) :
      Loop.Kept { loop with ev := loop.ev.put report.owner { loop.ev.sessions report.owner with evt := evt } } id := by
    apply kept_of_reg loop _ id kept
    by_cases own : id = report.owner
    · rw [own]
      intro on
      rw [put_same]
      exact same.trans on
    · exact fun on => (congrArg (·.evt.reg) (put_other _ _ id _ own)).trans on
  dsimp only [Loop.note]
  by_cases broken : report.broken = true
  · rw [if_pos broken]
    exact loop_del_kept _ _ id (noted _ rfl)
  · rw [if_neg broken]
    exact noted _ rfl

theorem note_gone : (loop.note report).gone = loop.gone := by
  dsimp only [Loop.note]
  split
  · exact loop_del_gone _ _
  · rfl

theorem evt_handle_skip (loop : Loop) (skipped : report.owner ∈ loop.cleared ∨ report.any = false) :
    evtHandle (report :: rest) acts loop = evtHandle rest acts loop := if_pos skipped

theorem evt_handle_call (loop : Loop)
    (taken : report.owner ∉ loop.cleared ∧ report.any = true) (calling : (loop.ev.sessions report.owner).evt.cb = true) :
    evtHandle (report :: rest) acts loop =
      ⟨report.owner, loop.gone⟩ :: evtHandle rest acts.tail ((acts.headD []).foldl Loop.call (loop.note report)) := by
  rw [evtHandle, if_neg (not_or.mpr ⟨taken.1, Bool.not_eq_false _ ▸ taken.2⟩)]
  dsimp only
  rw [if_pos calling]

theorem evt_handle_quiet (loop : Loop)
    (taken : report.owner ∉ loop.cleared ∧ report.any = true) (quiet : ¬ (loop.ev.sessions report.owner).evt.cb = true) :
    evtHandle (report :: rest) acts loop = ⟨report.owner, loop.gone⟩ :: evtHandle rest acts (loop.note report) := by
  rw [evtHandle, if_neg (not_or.mpr ⟨taken.1, Bool.not_eq_false _ ▸ taken.2⟩)]
  dsimp only
  rw [if_neg quiet]

theorem handle_sound (loop : Loop) (kept : ∀ report ∈ rest, report.any = true → loop.Kept report.owner) :
    ∀ dispatch ∈ evtHandle rest acts loop, dispatch.Sound := by
  induction rest generalizing acts loop with
  | nil => exact List.forall_mem_nil _
  | cons report rest ih =>
    have others (later : Report) (there : later ∈ rest) := kept _ (List.mem_cons_of_mem _ there)
    have noted (later : Report) (there : later ∈ rest) (any : later.any = true) :=
      note_kept loop report _ (others later there any)
    by_cases skipped : report.owner ∈ loop.cleared ∨ report.any = false
    · rw [evt_handle_skip _ rest acts loop skipped]
      exact ih acts loop others
    · rw [not_or, Bool.not_eq_false] at skipped
      have alive := (kept _ List.mem_cons_self skipped.2).resolve_left skipped.1
      by_cases calling : (loop.ev.sessions report.owner).evt.cb = true
      · rw [evt_handle_call _ rest acts loop skipped calling, List.forall_mem_cons]
        exact ⟨alive.2, ih _ _ fun later there any => calls_kept _ _ _ (noted _ there any)⟩
      · rw [evt_handle_quiet _ rest acts loop skipped calling, List.forall_mem_cons]
        exact ⟨alive.2, ih acts _ noted⟩

structure Loop.Untouched (ev : Eventer) (loop : Loop) : Prop where
  gone : loop.gone = []
  called : ∀ id, (loop.ev.sessions id).evt.cb = (ev.sessions id).evt.cb
  registered : ∀ id, (loop.ev.sessions id).evt.reg = true → (ev.sessions id).evt.reg = true
  kept : ∀ id, (ev.sessions id).evt.reg = true → loop.Kept id
  cleared : ∀ id ∈ loop.cleared, (ev.sessions id).evt.reg = true ∧ (ev.sessions id).evt.cb = false

theorem loop_del_cb : ((loop.del id).ev.sessions other).evt.cb = (loop.ev.sessions other).evt.cb := by
  unfold Loop.del
  split
  · rfl
  · by_cases same : other = id
    · rw [same]
      exact (evt_del_same _ id).2.1
    · exact congrArg (·.evt.cb) (evt_del_frame _ id _ same)

theorem loop_del_reg (on : ((loop.del id).ev.sessions other).evt.reg = true) : (loop.ev.sessions other).evt.reg = true := by
  unfold Loop.del at on
  split at on
  · exact on
  · by_cases same : other = id
    · rw [same, (evt_del_same _ id).1] at on
      cases on
    · rwa [evt_del_frame _ id _ same] at on

theorem loop_del_cleared (there : other ∈ (loop.del id).cleared) :
    other ∈ loop.cleared ∨ (other = id ∧ (loop.ev.sessions id).evt.reg = true) := by
  unfold Loop.del at there
  split at there
  · exact .inl there
  · rename_i on
    rw [Bool.not_eq_false] at on
    exact (List.mem_cons.mp there).symm.imp_right fun same => ⟨same, on⟩

theorem note_sessions : ∃ noted : Loop, noted.cleared = loop.cleared ∧
      (∀ id, (noted.ev.sessions id).evt.reg = (loop.ev.sessions id).evt.reg ∧
        (noted.ev.sessions id).evt.cb = (loop.ev.sessions id).evt.cb) ∧
      loop.note report = if report.broken = true then noted.del report.owner else noted := by
  let evt := { (loop.ev.sessions report.owner).evt with
    error := (loop.ev.sessions report.owner).evt.error || report.broken
    eof := (loop.ev.sessions report.owner).evt.eof || report.rdhup }
  refine ⟨{ loop with ev := loop.ev.put _ _ }, rfl, ?_, rfl⟩
  intro id
  by_cases own : id = report.owner
  · rw [own, put_same]
    exact ⟨rfl, rfl⟩
  · rw [put_other _ _ _ _ own]
    exact ⟨rfl, rfl⟩

theorem note_untouched (untouched : loop.Untouched ev)
    (quiet : (ev.sessions report.owner).evt.cb = false) : (loop.note report).Untouched ev := by
  have kept (id : Nat) (on : (ev.sessions id).evt.reg = true) := note_kept loop report id (untouched.kept id on)
  have gone := (note_gone loop report).trans untouched.gone
  obtain ⟨noted, sameCleared, sessions, whole⟩ := note_sessions loop _
  rw [whole] at kept gone ⊢
  by_cases broken : report.broken = true
  · rw [if_pos broken] at kept gone ⊢
    refine ⟨gone, ?_, ?_, kept, ?_⟩
    · exact fun id => (loop_del_cb _ _ id).trans ((sessions id).2.trans (untouched.called id))
    · exact fun id on => untouched.registered id ((sessions id).1.symm.trans (loop_del_reg _ _ id on))
    · intro id there
      rcases loop_del_cleared _ _ id there with old | ⟨rfl, on⟩
      · exact untouched.cleared id (sameCleared ▸ old)
      · exact ⟨untouched.registered _ ((sessions _).1.symm.trans on), quiet⟩
  · rw [if_neg broken] at kept gone ⊢
    refine ⟨gone, ?_, ?_, kept, ?_⟩
    · exact fun id => (sessions id).2.trans (untouched.called id)
    · exact fun id on => untouched.registered id ((sessions id).1.symm.trans on)
    · exact fun id there => untouched.cleared id (sameCleared ▸ there)

theorem note_stale (id : Nat) (fresh : id ∉ loop.cleared) (off : (loop.ev.sessions id).evt.reg = false) :
    id ∉ (loop.note report).cleared ∧ ((loop.note report).ev.sessions id).evt.reg = false := by
  obtain ⟨noted, sameCleared, sessions, whole⟩ := note_sessions loop _
  have stillOff : (noted.ev.sessions id).evt.reg = false := (sessions id).1.trans off
  rw [whole]
  split
  · constructor
    · intro cleared
      rcases loop_del_cleared _ _ id cleared with old | ⟨same, on⟩
      · exact fresh (sameCleared ▸ old)
      · exact Bool.false_ne_true (stillOff.symm.trans (same ▸ on))
    · exact Bool.eq_false_iff.mpr fun on => Bool.false_ne_true (stillOff.symm.trans (loop_del_reg _ _ id on))
  · exact ⟨sameCleared ▸ fresh, stillOff⟩

theorem destroy_stale (id : Nat) (off : (loop.ev.sessions id).evt.reg = false) :
    (loop.call (.destroy id)).cleared = loop.cleared ∧
      ((loop.call (.destroy id)).ev.sessions id).evt.reg = false ∧ (loop.call (.destroy id)).gone = id :: loop.gone := by
  refine ⟨?_, ?_, rfl⟩
  · dsimp only [Loop.call, Loop.del]
    rw [if_pos off]
  · dsimp only [Loop.call]
    rw [put_same]
    rfl

theorem behind_registered_sound (loop : Loop) (untouched : loop.Untouched ev) (behind : BehindRegistered ev rest) :
    ∀ dispatch ∈ evtHandle rest acts loop, dispatch.Sound := by
  induction rest generalizing loop with
  | nil => exact List.forall_mem_nil _
  | cons report rest ih =>
    rw [BehindRegistered] at behind
    have first : Dispatch.Sound ⟨report.owner, loop.gone⟩ := by
      rw [Dispatch.Sound, untouched.gone]
      exact List.not_mem_nil
    by_cases calling : report.any = true ∧ (ev.sessions report.owner).evt.cb = true
    · rw [if_pos calling] at behind
      have kept (later : Report) (there : later ∈ rest) (any : later.any = true) := untouched.kept _ (behind _ there any)
      have fresh : report.owner ∉ loop.cleared := by
        intro there
        exact Bool.false_ne_true ((untouched.cleared _ there).2.symm.trans calling.2)
      rw [evt_handle_call _ rest acts loop ⟨fresh, calling.1⟩ ((untouched.called _).trans calling.2),
        List.forall_mem_cons]
      exact ⟨first, handle_sound rest _ _ fun later there any =>
        calls_kept _ _ _ (note_kept loop _ _ (kept _ there any))⟩
    · rw [if_neg calling] at behind
      by_cases skipped : report.owner ∈ loop.cleared ∨ report.any = false
      · rw [evt_handle_skip _ rest acts loop skipped]
        exact ih loop untouched behind
      · rw [not_or, Bool.not_eq_false] at skipped
        have quiet : ¬ (ev.sessions _).evt.cb = true := fun on => calling ⟨skipped.2, on⟩
        rw [evt_handle_quiet _ rest acts loop skipped (untouched.called _ ▸ quiet), List.forall_mem_cons]
        exact ⟨first, ih _ (note_untouched ev loop _ untouched (Bool.eq_false_iff.mpr quiet)) behind⟩

theorem stale_dispatched (loop : Loop) (later : Report) (there : later ∈ rest)
    (any : later.any = true) (fresh : later.owner ∉ loop.cleared)
    (off : (loop.ev.sessions later.owner).evt.reg = false) : ⟨later.owner, loop.gone⟩ ∈ evtHandle rest [] loop := by
  induction rest generalizing loop with
  | nil => cases there
  | cons report rest ih =>
    by_cases skipped : report.owner ∈ loop.cleared ∨ report.any = false
    · rw [evt_handle_skip _ rest [] loop skipped]
      rcases List.mem_cons.mp there with rfl | behind
      · exact absurd skipped (not_or.mpr ⟨fresh, Bool.not_eq_false _ ▸ any⟩)
      · exact ih loop behind fresh off
    · rw [not_or, Bool.not_eq_false] at skipped
      have whole : evtHandle (report :: rest) [] loop =
          ⟨report.owner, loop.gone⟩ :: evtHandle rest [] (loop.note report) := by
        by_cases calling : (loop.ev.sessions report.owner).evt.cb = true
        · exact evt_handle_call _ rest [] loop skipped calling
        · exact evt_handle_quiet _ rest [] loop skipped calling
      have after := note_stale loop report _ fresh off
      rw [whole, List.mem_cons]
      rcases List.mem_cons.mp there with rfl | behind
      · exact .inl rfl
      · have onward := ih _ behind after.1 after.2
        rw [note_gone] at onward
        exact .inr onward

theorem stale_freed (loop : Loop) (untouched : loop.Untouched ev)
    (broken : ¬ BehindRegistered ev rest) : ∃ acts, ∃ dispatch ∈ evtHandle rest acts loop, ¬ dispatch.Sound := by
  induction rest generalizing loop with
  | nil => exact absurd trivial broken
  | cons report rest ih =>
    rw [BehindRegistered] at broken
    by_cases calling : report.any = true ∧ (ev.sessions report.owner).evt.cb = true
    · rw [if_pos calling] at broken
      push Not at broken
      obtain ⟨later, there, any, off⟩ := broken
      have stale : later.owner ∉ loop.cleared ∧ (loop.ev.sessions later.owner).evt.reg = false := by
        constructor
        · exact fun cleared => off (untouched.cleared _ cleared).1
        · exact Bool.eq_false_iff.mpr fun on => off (untouched.registered _ on)
      have fresh : report.owner ∉ loop.cleared := by
        intro cleared
        exact Bool.false_ne_true ((untouched.cleared _ cleared).2.symm.trans calling.2)
      have after := note_stale loop report _ stale.1 stale.2
      have freed := destroy_stale _ _ after.2
      refine ⟨[[.destroy later.owner]], ⟨later.owner, later.owner :: loop.gone⟩, ?_, fun sound => sound List.mem_cons_self⟩
      rw [evt_handle_call _ rest _ loop ⟨fresh, calling.1⟩ ((untouched.called _).trans calling.2), List.mem_cons]
      right
      have onward := stale_dispatched rest _ _ there any
        (freed.1 ▸ after.1) freed.2.1
      rw [freed.2.2, note_gone] at onward
      exact onward
    · rw [if_neg calling] at broken
      by_cases skipped : report.owner ∈ loop.cleared ∨ report.any = false
      · obtain ⟨acts, onward⟩ := ih loop untouched broken
        exact ⟨acts, evt_handle_skip _ rest acts loop skipped ▸ onward⟩
      · rw [not_or, Bool.not_eq_false] at skipped
        have quiet : ¬ (ev.sessions _).evt.cb = true := fun on => calling ⟨skipped.2, on⟩
        obtain ⟨acts, dispatch, there, unsound⟩ :=
          ih _ (note_untouched ev loop _ untouched (Bool.eq_false_iff.mpr quiet)) broken
        refine ⟨acts, dispatch, ?_, unsound⟩
        rw [evt_handle_quiet _ rest acts loop skipped (untouched.called _ ▸ quiet)]
        exact List.mem_cons_of_mem _ there

theorem untouched_start : Loop.Untouched ev ⟨ev, [], []⟩ :=
  ⟨rfl, fun _ => rfl, fun _ on => on, fun _ on => .inr ⟨on, List.not_mem_nil⟩, fun _ there => by cases there⟩

theorem behind_registered_safe (batch : List Report) (behind : BehindRegistered ev batch) : BatchSafe ev batch :=
  fun acts => behind_registered_sound ev _ acts _ (untouched_start ev) behind

theorem batch_safe_iff (ev : Eventer) (batch : List Report) : BatchSafe ev batch ↔ BehindRegistered ev batch := by
  constructor
  · intro safe
    by_contra broken
    obtain ⟨acts, dispatch, there, unsound⟩ := stale_freed ev _ _ (untouched_start ev) broken
    exact unsound (safe acts _ there)
  · exact behind_registered_safe ev _

-- A device that is authenticated again (ra_start) leaves its first socket 5
-- watched, also when it is freed. The session of a tunnel gets its address
-- and is slowed down, then a frame of the tunnel 2 stops it: evt_del leaves
-- the event of socket 5 behind it in the array.
theorem stale_event_reaches_freed : ¬ ∀ calls batch,
      (∀ report ∈ batch, ∃ watch ∈ (run call Eventer.start calls).watched, watch.owner = report.owner) →
        BatchSafe (run call Eventer.start calls) batch := by
  intro claim
  have safe := claim
    [.setfd 1 5, .setEvent 1 evtWrite, .setfd 1 6, .setEvent 1 evtWrite, .destroy 1, .setfd 2 7, .setEvent 2 evtRead,
      .setfd 1 8, .setEvent 1 evtWrite, .setEvent 1 evtRead, .cancelEvent 1]
    [⟨2, false, true, false, false⟩, ⟨1, false, true, false, false⟩] (by decide) [[.destroy 1]]
  revert safe
  decide

end Codec.Ems
