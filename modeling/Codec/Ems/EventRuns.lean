import Codec.Ems.EventBatch

set_option autoImplicit false

namespace Codec.Ems

open Codec.Lib

structure InStep (ev : Eventer) (id : Nat) : Prop where
  on : (ev.sessions id).evt.reg = true → ∀ watch, watch ∈ ev.watched ∧ watch.owner = id ↔
    watch = ⟨(ev.sessions id).fd, id, interest (ev.sessions id).asked⟩
  off : (ev.sessions id).evt.reg = false → ∀ watch ∈ ev.watched, watch.fd ≠ (ev.sessions id).fd

-- A session gives up its descriptor only while its event is not registered.
def Released (ev : Eventer) : Call → Prop
  | .setfd id _ => (ev.sessions id).evt.reg = false
  | .close id => (ev.sessions id).evt.reg = false
  | _ => True

instance (ev : Eventer) (request : Call) : Decidable (Released ev request) := by
  cases request <;> unfold Released <;> infer_instance

structure Books (ev : Eventer) : Prop where
  zero : 0 ∉ ev.descriptors
  live : ∀ id, (ev.sessions id).fd ≠ 0 → (ev.sessions id).fd ∈ ev.descriptors
  apart : ∀ left right, (ev.sessions left).fd = (ev.sessions right).fd → (ev.sessions left).fd ≠ 0 → left = right
  known : ∀ watch ∈ ev.watched, watch.fd ∈ ev.descriptors
  owned : ∀ watch ∈ ev.watched, (ev.sessions watch.owner).evt.reg = true ∧
    watch = ⟨(ev.sessions watch.owner).fd, watch.owner, interest (ev.sessions watch.owner).asked⟩
  watched : ∀ id, (ev.sessions id).evt.reg = true →
    ⟨(ev.sessions id).fd, id, interest (ev.sessions id).asked⟩ ∈ ev.watched
  flags : ∀ id, (ev.sessions id).evt.reg = true →
    (ev.sessions id).evt.flg = (ev.sessions id).asked ∧ (ev.sessions id).evt.fd = (ev.sessions id).fd

theorem books_start : Books Eventer.start := by
  constructor
  · exact List.not_mem_nil
  · exact fun _ some => absurd rfl some
  · exact fun _ _ _ some => absurd rfl some
  · exact List.forall_mem_nil _
  · exact List.forall_mem_nil _
  · exact fun _ on => absurd on Bool.false_ne_true
  · exact fun _ on => absurd on Bool.false_ne_true

variable (ev : Eventer)

theorem books_fd (books : Books ev) (watch : Watch) (there : watch ∈ ev.watched) :
    watch.fd = (ev.sessions watch.owner).fd ∧ watch.fd ≠ 0 :=
  ⟨congrArg _ (books.owned _ there).2, fun none => books.zero (none ▸ books.known _ there)⟩

theorem books_owner (books : Books ev) (watch : Watch) (id : Nat) (there : watch ∈ ev.watched)
    (same : watch.fd = (ev.sessions id).fd) : watch.owner = id := by
  obtain ⟨own, some⟩ := books_fd ev books _ there
  exact books.apart _ id (own.symm.trans same) (own ▸ some)

theorem books_in_step (books : Books ev) (id : Nat) : InStep ev id := by
  constructor
  · intro on watch
    constructor
    · rintro ⟨there, rfl⟩
      exact (books.owned _ there).2
    · rintro rfl
      exact ⟨books.watched id on, rfl⟩
  · intro off watch there same
    have on := (books.owned _ there).1
    rw [books_owner ev books _ id there same, off] at on
    cases on

theorem books_put (books : Books ev) (id : Nat) (sess : Session) (watched : List Watch) (same : sess.fd = (ev.sessions id).fd)
    (own : ∀ watch ∈ watched, watch.owner = id → sess.evt.reg = true ∧ watch = ⟨sess.fd, id, interest sess.asked⟩)
    (on : sess.evt.reg = true → sess.fd ∈ ev.descriptors ∧ sess.evt.flg = sess.asked ∧ sess.evt.fd = sess.fd ∧
      ⟨sess.fd, id, interest sess.asked⟩ ∈ watched)
    (others : ∀ watch, watch.owner ≠ id → (watch ∈ watched ↔ watch ∈ ev.watched)) :
    Books (Eventer.put ⟨ev.sessions, ev.descriptors, watched⟩ id sess) := by
  have fds (other : Nat) :
      ((Eventer.put ⟨ev.sessions, ev.descriptors, watched⟩ id sess).sessions other).fd = (ev.sessions other).fd := by
    by_cases here : other = id
    · rw [here, put_same, same]
    · rw [put_other _ _ _ _ here]
  constructor
  · exact books.zero
  · exact fun other some => fds _ ▸ books.live _ (fds _ ▸ some)
  · exact fun left right equal some => books.apart left _ (fds left ▸ fds _ ▸ equal) (fds left ▸ some)
  · intro watch there
    by_cases here : watch.owner = id
    · obtain ⟨reg, whole⟩ := own _ there here
      rw [whole]
      exact (on reg).1
    · exact books.known _ ((others _ here).mp there)
  · intro watch there
    by_cases here : watch.owner = id
    · rw [here, put_same]
      exact own _ there here
    · rw [put_other _ _ _ _ here]
      exact books.owned _ ((others _ here).mp there)
  · intro other reg
    by_cases here : other = id
    · rw [here, put_same] at reg ⊢
      exact (on reg).2.2.2
    · rw [put_other _ _ _ _ here] at reg ⊢
      exact (others _ here).mpr (books.watched _ reg)
  · intro other reg
    by_cases here : other = id
    · rw [here, put_same] at reg ⊢
      exact ⟨(on reg).2.1, (on reg).2.2.1⟩
    · rw [put_other _ _ _ _ here] at reg ⊢
      exact books.flags _ reg

theorem books_put_off (books : Books ev) (id : Nat) (sess : Session)
    (same : sess.fd = (ev.sessions id).fd) (before : (ev.sessions id).evt.reg = false) (after : sess.evt.reg = false) :
    Books (ev.put id sess) := by
  apply books_put ev books id sess _ same
  · intro watch there here
    have reg := (books.owned _ there).1
    rw [here, before] at reg
    cases reg
  · intro reg
    rw [after] at reg
    cases reg
  · exact fun _ _ => Iff.rfl

theorem known_iff (fd : Nat) :
    (ev.watched.any fun other => decide (other.fd = fd)) = true ↔ ∃ watch ∈ ev.watched, watch.fd = fd := by
  simp only [List.any_eq_true, decide_eq_true_iff]

theorem evt_del_books (books : Books ev) (id : Nat) : Books (evtDel ev id) := by
  dsimp only [evtDel]
  by_cases off : (ev.sessions id).evt.reg = false
  · rwa [if_pos off]
  · rw [if_neg off]
    rw [Bool.not_eq_false] at off
    have fd := (books.flags id off).2
    have there : (ev.watched.any fun other => decide _) = true := (known_iff ev _).mpr ⟨_, books.watched id off, fd.symm⟩
    dsimp only [epollCtl]
    rw [if_pos there, Option.getD_some, fd]
    apply books_put ev books id
    · rfl
    · intro watch left here
      rw [List.mem_filter, decide_eq_true_iff] at left
      obtain ⟨old, different⟩ := left
      rw [(books_fd ev books _ old).1, here] at different
      exact absurd rfl different
    · exact fun on => absurd on Bool.false_ne_true
    · intro watch other
      rw [List.mem_filter, decide_eq_true_iff, and_iff_left_iff_imp]
      exact fun old equal => other (books_owner ev books _ id old equal)

theorem off_not_owner (books : Books ev) (id : Nat) (off : (ev.sessions id).evt.reg = false)
    (watch : Watch) (there : watch ∈ ev.watched) : watch.owner ≠ id ∧ watch.fd ≠ (ev.sessions id).fd := by
  have different : watch.owner ≠ id := by
    rintro rfl
    rw [(books.owned _ there).1] at off
    cases off
  exact ⟨different, fun same => different (books_owner ev books _ id there same)⟩

theorem books_move (books : Books ev) (id fd : Nat) (descriptors : List Nat)
    (off : (ev.sessions id).evt.reg = false) (zero : 0 ∉ descriptors) (opened : fd ≠ 0 → fd ∈ descriptors ∧ fd ∉ ev.descriptors)
    (kept : ∀ other ∈ ev.descriptors, other ≠ (ev.sessions id).fd → other ∈ descriptors) :
    Books (Eventer.put ⟨ev.sessions, descriptors, ev.watched⟩ id { ev.sessions id with fd := fd }) := by
  have others (other : Nat) (different : other ≠ id) (some : (ev.sessions other).fd ≠ 0) :
      (ev.sessions other).fd ∈ descriptors ∧ (ev.sessions other).fd ≠ fd := by
    have live := books.live _ some
    constructor
    · exact kept _ live fun same => different (books.apart _ id same some)
    · exact fun same => (opened (same ▸ some)).2 (same ▸ live)
  have apart (other : Nat)
      (on : ((Eventer.put ⟨ev.sessions, descriptors, ev.watched⟩ id { ev.sessions id with fd := fd }).sessions
        other).evt.reg = true) : other ≠ id := by
    rintro rfl
    rw [put_same, off] at on
    cases on
  constructor
  · exact zero
  · intro other some
    by_cases here : other = id
    · rw [here, put_same] at some ⊢
      exact (opened some).1
    · rw [put_other _ _ _ _ here] at some ⊢
      exact (others _ here some).1
  · intro left right equal some
    by_cases first : left = id
    · by_cases second : right = id
      · exact first.trans second.symm
      · rw [first, put_same] at equal some
        rw [put_other _ _ _ _ second] at equal
        exact absurd equal.symm (others _ second (equal ▸ some)).2
    · rw [put_other _ _ _ _ first] at equal some
      by_cases second : right = id
      · rw [second, put_same] at equal
        exact absurd equal (others left first some).2
      · rw [put_other _ _ _ _ second] at equal
        exact books.apart left _ equal some
  · exact fun watch there => kept _ (books.known _ there) (off_not_owner ev books id off _ there).2
  · intro watch there
    rw [put_other _ _ _ _ (off_not_owner ev books id off _ there).1]
    exact books.owned _ there
  · intro other on
    have different := apart _ on
    rw [put_other _ _ _ _ different] at on ⊢
    exact books.watched _ on
  · intro other on
    have different := apart _ on
    rw [put_other _ _ _ _ different] at on ⊢
    exact books.flags _ on

theorem sock_close_books (books : Books ev) (id : Nat) (off : (ev.sessions id).evt.reg = false) : Books (sockClose ev id) := by
  dsimp only [sockClose]
  by_cases none : (ev.sessions id).fd = 0
  · rwa [if_pos none]
  · have all : (ev.watched.filter fun watch => decide _) = ev.watched :=
      List.filter_eq_self.mpr fun watch there => decide_eq_true (off_not_owner ev books id off _ there).2
    rw [if_neg none, all]
    apply books_move ev books id 0 _ off
    · exact fun there => books.zero (List.mem_filter.mp there).1
    · exact fun some => absurd rfl some
    · exact fun other there different => List.mem_filter.mpr ⟨there, decide_eq_true different⟩

theorem sock_setfd_books (books : Books ev) (id fd : Nat) (off : (ev.sessions id).evt.reg = false) :
    Books (sockSetfd ev id fd) := by
  dsimp only [sockSetfd]
  by_cases used : fd = 0 ∨ fd ∈ ev.descriptors
  · rwa [if_pos used]
  · rw [if_neg used]
    rw [not_or] at used
    apply books_move ev books id fd _ off
    · exact List.not_mem_cons_of_ne_of_not_mem (Ne.symm used.1) books.zero
    · exact fun _ => ⟨List.mem_cons_self, used.2⟩
    · exact fun other there _ => List.mem_cons_of_mem fd there

theorem destroy_books (books : Books ev) (id : Nat) : Books (sessionShutdownAndDestroy ev id) := by
  have off := (evt_del_same ev id).1
  have closed := sock_close_books _ (evt_del_books ev books id) id off
  apply books_put_off _ closed
  · rw [sock_close_same]
    rfl
  · rw [sock_close_same]
    exact off
  · rfl

theorem put_put (id : Nat) (first second : Session) (watched : List Watch) :
    Eventer.put ⟨(ev.put id first).sessions, ev.descriptors, watched⟩ id second =
      Eventer.put ⟨ev.sessions, ev.descriptors, watched⟩ id second := by
  unfold Eventer.put
  congr 1
  funext other
  by_cases here : other = id
  · rw [if_pos here, if_pos here]
  · rw [if_neg here, if_neg here]
    exact if_neg here

theorem event_mod_books (books : Books ev) (id flgs : Nat) (sess : Session)
    (reg : (ev.sessions id).evt.reg = true) (same : sess.fd = (ev.sessions id).fd)
    (set : sess.evt.reg = true ∧ sess.evt.flg = sess.asked ∧ sess.evt.fd = sess.fd ∧ sess.asked = flgs) :
    (ev.watched.any fun other => decide (other.fd = sess.fd)) = true ∧ Books (Eventer.put ⟨ev.sessions, ev.descriptors,
        ev.watched.map fun other => if other.fd = sess.fd then ⟨sess.fd, id, interest flgs⟩ else other⟩ id sess) := by
  obtain ⟨on, flags, fd, asked⟩ := set
  have old := books.watched id reg
  constructor
  · exact (known_iff ev _).mpr ⟨_, old, same.symm⟩
  · apply books_put ev books id sess _ same
    · intro watch there here
      obtain ⟨before, among, rfl⟩ := List.mem_map.mp there
      by_cases found : before.fd = sess.fd
      · rw [if_pos found, asked]
        exact ⟨on, rfl⟩
      · rw [if_neg found] at here
        exact absurd ((books_fd ev books _ among).1.trans (here ▸ same.symm)) found
    · intro _
      refine ⟨same ▸ books.known _ old, flags, fd, ?_⟩
      rw [asked]
      exact List.mem_map.mpr ⟨_, old, if_pos same.symm⟩
    · intro watch other
      rw [List.mem_map]
      constructor
      · rintro ⟨before, among, rfl⟩
        by_cases found : before.fd = sess.fd
        · rw [if_pos found] at other
          exact absurd rfl other
        · rwa [if_neg found]
      · intro among
        exact ⟨watch, among, if_neg fun found => other (books_owner ev books _ id among (found.trans same))⟩

theorem event_add_books (books : Books ev) (id flgs : Nat) (sess : Session)
    (off : (ev.sessions id).evt.reg = false) (same : sess.fd = (ev.sessions id).fd) (opened : sess.fd ∈ ev.descriptors)
    (set : sess.evt.reg = true ∧ sess.evt.flg = sess.asked ∧ sess.evt.fd = sess.fd ∧ sess.asked = flgs) :
    Books (Eventer.put ⟨ev.sessions, ev.descriptors, ⟨sess.fd, id, interest flgs⟩ :: ev.watched⟩ id sess) := by
  obtain ⟨on, flags, fd, asked⟩ := set
  apply books_put ev books id sess _ same
  · intro watch there here
    rcases List.mem_cons.mp there with rfl | old
    · rw [asked]
      exact ⟨on, rfl⟩
    · exact absurd here (off_not_owner ev books id off _ old).1
  · exact fun _ => ⟨opened, flags, fd, asked ▸ List.mem_cons_self⟩
  · intro watch other
    rw [List.mem_cons, or_iff_right]
    rintro rfl
    exact other rfl

theorem set_early (id flg : Nat) (reg : (ev.sessions id).evt.reg = true)
    (early : (ev.sessions id).evt.flg = flg ||| evtEdgeTrigger) : sessEventSet ev id flg = ev.put id ⟨(ev.sessions id).fd,
      { (ev.sessions id).evt with fd := (ev.sessions id).fd }, flg ||| evtEdgeTrigger⟩ := by
  dsimp only [sessEventSet, eventAdd]
  rw [put_same, if_pos ⟨reg, early⟩]

theorem set_ctl (id flg : Nat)
    (late : ¬ ((ev.sessions id).evt.reg = true ∧ (ev.sessions id).evt.flg = flg ||| evtEdgeTrigger)) :
    let fd := (ev.sessions id).fd
    let flgs := flg ||| evtEdgeTrigger
    sessEventSet ev id flg =
      match epollCtl ev (if (ev.sessions id).evt.reg = true then .mod else .add) ⟨fd, id, interest flgs⟩ with
      | none => ev.put id ⟨fd, { (ev.sessions id).evt with fd := fd, cb := true }, flgs⟩
      | some watched =>
        Eventer.put ⟨ev.sessions, ev.descriptors, watched⟩ id ⟨fd, ⟨fd, false, true, flgs, false, true⟩, flgs⟩ := by
  intro fd flgs
  have ctl (sess : Session) (op : EpollOp) (watch : Watch) : epollCtl (ev.put id sess) op _ = epollCtl ev op watch := rfl
  dsimp only [sessEventSet, eventAdd]
  rw [put_same, if_neg late]
  rw [ctl]
  split
  · rename_i failed
    rw [failed]
    exact put_put ev id _ _ _
  · rename_i done
    rw [done]
    exact put_put ev id _ _ _

theorem epoll_add_some (watch : Watch) (watched : List Watch)
    (added : epollCtl ev .add watch = some watched) : watch.fd ∈ ev.descriptors ∧ watched = watch :: ev.watched := by
  dsimp only [epollCtl] at added
  by_cases free : watch.fd ∈ ev.descriptors ∧ (ev.watched.any fun other => decide (other.fd = watch.fd)) = false
  · rw [if_pos free] at added
    exact ⟨free.1, (Option.some.inj added).symm⟩
  · rw [if_neg free] at added
    cases added

theorem epoll_mod_some (watch : Watch) (known : (ev.watched.any fun other => decide (other.fd = watch.fd)) = true) :
    epollCtl ev .mod watch = some (ev.watched.map fun other => if other.fd = watch.fd then watch else other) :=
  if_pos known

theorem sess_event_set_books (books : Books ev) (id flg : Nat) : Books (sessEventSet ev id flg) := by
  by_cases reg : (ev.sessions id).evt.reg = true
  · have flags := books.flags id reg
    by_cases early : (ev.sessions id).evt.flg = flg ||| evtEdgeTrigger
    · have asked : (ev.sessions id).asked = flg ||| evtEdgeTrigger := flags.1.symm.trans early
      rw [set_early ev id flg reg early, ← asked, ← flags.2]
      apply books_put ev books id _ _
      · exact flags.2
      · intro watch there here
        have whole := (books.owned _ there).2
        rw [here] at whole
        exact ⟨reg, flags.2 ▸ whole⟩
      · intro _
        have there := books.watched id reg
        exact ⟨flags.2 ▸ books.known _ there, flags.1, rfl, flags.2 ▸ there⟩
      · exact fun _ _ => Iff.rfl
    · have mod := event_mod_books ev books id _ ⟨(ev.sessions id).fd,
        ⟨(ev.sessions id).fd, false, true, flg ||| evtEdgeTrigger, false, true⟩, flg ||| evtEdgeTrigger⟩ reg rfl
        ⟨rfl, rfl, rfl, rfl⟩
      rw [set_ctl ev id flg (fun both => early both.2), if_pos reg, epoll_mod_some ev _ mod.1]
      exact mod.2
  · rw [set_ctl ev id flg (fun both => reg both.1), if_neg reg]
    rw [Bool.not_eq_true] at reg
    split
    · exact books_put_off ev books id _ rfl reg reg
    · rename_i added
      obtain ⟨opened, rfl⟩ := epoll_add_some ev _ _ added
      exact event_add_books ev books id _ _ reg rfl opened ⟨rfl, rfl, rfl, rfl⟩

theorem call_books (request : Call) (books : Books ev) (released : Released ev request) : Books (call ev request) := by
  cases request with
  | setEvent id flg => exact sess_event_set_books ev books id flg
  | cancelEvent id => exact evt_del_books ev books id
  | setfd id fd => exact sock_setfd_books ev books id fd released
  | close id => exact sock_close_books ev books id released
  | destroy id => exact destroy_books ev books id

theorem run_books (calls : List Call) (released : AllSteps call Released Eventer.start calls) :
    Books (run call Eventer.start calls) :=
  run_keeps call _ _ _ _ books_start call_books released

theorem registrations_in_step (calls : List Call) (released : AllSteps call Released Eventer.start calls) (id : Nat) :
    InStep (run call Eventer.start calls) id :=
  books_in_step _ (run_books _ released) id

-- ra_start on a session that is there already, and ra_start_to_acct_user.
def raStart (id fd : Nat) : List Call := [.setfd id fd, .setEvent id evtWrite]

def raStartToAcctUser (id fd : Nat) : List Call := [.cancelEvent id, .close id, .setfd id fd, .setEvent id evtWrite]

theorem registrations_in_step_accounting :
    InStep (run call Eventer.start (raStart 1 5 ++ [.setEvent 1 evtRead] ++ raStartToAcctUser 1 6)) 1 :=
  registrations_in_step _ (by decide) 1

theorem reauthentication_out_of_step : ¬ ∀ calls id, InStep (run call Eventer.start calls) id := by
  intro claim
  have watched := ((claim (raStart 1 5 ++ [.setEvent 1 evtRead] ++ raStart 1 6) 1).on (by decide)
    ⟨6, 1, interest (evtWrite ||| evtEdgeTrigger)⟩).mpr (by decide)
  revert watched
  decide

-- epoll_wait reports what is watched.
theorem reported_batch_safe (calls : List Call) (released : AllSteps call Released Eventer.start calls) (batch : List Report)
    (reported : ∀ report ∈ batch, ∃ watch ∈ (run call Eventer.start calls).watched, watch.owner = report.owner) :
    BatchSafe (run call Eventer.start calls) batch := by
  have books := run_books _ released
  have every : ∀ report ∈ batch, ((run call Eventer.start calls).sessions report.owner).evt.reg = true := by
    intro report there
    obtain ⟨watch, watched, owner⟩ := reported _ there
    exact owner ▸ (books.owned _ watched).1
  apply behind_registered_safe
  clear reported
  induction batch with
  | nil => trivial
  | cons report rest ih =>
    have others := (List.forall_mem_cons.mp every).2
    rw [BehindRegistered]
    split
    · exact fun later there _ => others _ there
    · exact ih others

theorem reported_batch_safe_accounting :
    BatchSafe (run call Eventer.start ([.setfd 2 4, .setEvent 2 evtRead] ++ raStart 1 5 ++ raStartToAcctUser 1 6))
      [⟨1, false, true, false, false⟩, ⟨2, false, true, false, false⟩] :=
  reported_batch_safe _ (by decide) _ (by decide)

end Codec.Ems
