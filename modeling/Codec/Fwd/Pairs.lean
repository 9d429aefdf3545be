import Codec.Fwd.Pair

set_option autoImplicit false

namespace Codec.Fwd

open Function

def refused (st : PairSt) : Prop := st = .clean ∨ st = .error

instance (st : PairSt) : Decidable (refused st) := inferInstanceAs (Decidable (st = .clean ∨ st = .error))

def holds (sess : PairSession) (id : Nat) : Prop := sess.user1 = some id ∨ sess.user2 = some id

instance (sess : PairSession) (id : Nat) : Decidable (holds sess id) := inferInstanceAs (Decidable (sess.user1 = some id ∨ sess.user2 = some id))

structure Paired (p : Pairing) : Prop where
  two : ∀ id user ticket, p.users id = some user → user.sess = some ticket → ∃ sess, p.sessions ticket = some sess ∧ holds sess id
  peers : ∀ id user peer, p.users id = some user → user.peer = some peer → ∃ other ticket, p.users peer = some other ∧ other.peer = some id ∧
    user.sess = some ticket ∧ other.sess = some ticket ∧ user.presented = some ticket ∧ other.presented = some ticket
  entered : ∀ pair ∈ p.entered, ∃ one other, pair = (some one, some other) ∧ ¬ refused one ∧ ¬ refused other

def Still (strict : Prop) (p : Pairing) (id : Nat) : Prop :=
  ∃ user, p.users id = some user ∧ (strict → ¬ refused user.st) ∧ user.event = false ∧ user.timer = false

def WaitsIn (strict : Prop) (p : Pairing) (child : Nat) (ticket : List UInt8) : Prop := ticket ∉ p.restart ∧ ∃ sess one other,
  p.sessions ticket = some sess ∧ sess.user1 = some one ∧ sess.user2 = some other ∧ sess.timer = false ∧ sess.base = some child ∧
  Still strict p one ∧ Still strict p other

structure PairedWhen (strict : Prop) (p : Pairing) : Prop where
  two : ∀ id user ticket, p.users id = some user → user.sess = some ticket → ∃ sess, p.sessions ticket = some sess ∧ holds sess id
  peers : ∀ id user peer, p.users id = some user → user.peer = some peer → ∃ other ticket, p.users peer = some other ∧ other.peer = some id ∧
    user.sess = some ticket ∧ other.sess = some ticket ∧ user.presented = some ticket ∧ other.presented = some ticket
  entered : strict → ∀ pair ∈ p.entered, ∃ one other, pair = (some one, some other) ∧ ¬ refused one ∧ ¬ refused other

structure PairInv (strict : Prop) (p : Pairing) : Prop extends PairedWhen strict p where
  back : ∀ ticket sess id, p.sessions ticket = some sess → holds sess id →
    ∃ user, p.users id = some user ∧ user.sess = some ticket ∧ user.presented = some ticket
  slots : ∀ ticket sess id, p.sessions ticket = some sess → sess.user1 = some id → sess.user2 ≠ some id
  waits : ∀ child, ∀ ticket ∈ p.wait child, WaitsIn strict p child ticket
  once : ∀ child, (p.wait child).Nodup

variable {strict : Prop}

section Put

variable (p : Pairing)

theorem put_users (id other : Nat) (change : PairUser → PairUser) :
    (putUser p id change).users other = if other = id then (p.users id).map change else p.users other := update_apply ..

theorem put_there (id : Nat) (user : PairUser) (there : p.users id = some user) (change : PairUser → PairUser) :
    (putUser p id change).users id = some (change user) := by
  rw [put_users, if_pos rfl, there]
  rfl

theorem put_sessions (ticket other : List UInt8) (change : PairSession → PairSession) :
    (putSession p ticket change).sessions other = if other = ticket then (p.sessions ticket).map change else p.sessions other :=
  update_apply ..

theorem unpeer_users (peer : Option Nat) (other : Nat) : (pairUnpeer p peer).users other =
    if peer = some other then (p.users other).map fun user => { user with peer := none } else p.users other := by
  cases peer with
  | none => rfl
  | some peer =>
    rw [pairUnpeer, put_users]
    by_cases same : other = peer
    · rw [if_pos same, if_pos (congrArg some same.symm), same]
    · rw [if_neg same, if_neg fun equal => same (Option.some.inj equal).symm]

theorem destroy_eq (id : Nat) (user : PairUser) (there : p.users id = some user) : pairUserDestroy p (some id) =
    { p with users := Function.update (pairUnpeer p user.peer).users id none, sessions := (pairLeave p id user.sess).sessions } := by
  rw [pairUserDestroy, there]
  dsimp only
  cases user.sess <;> cases user.peer <;> rfl

end Put

section

variable (p : Pairing)

include p

theorem destroy_attached (id : Nat) (user : PairUser) (there : p.users id = some user) (ticket : List UInt8)
    (own : user.sess = some ticket) (sess : PairSession) (known : p.sessions ticket = some sess) :
    (∃ next, (pairUserDestroy p (some id)).sessions = Function.update p.sessions ticket (some next) ∧ next.st = sess.st ∧ next.base = sess.base) ∧
    (∀ other, (pairUserDestroy p (some id)).users other = if other = id then none
      else if user.peer = some other then (p.users other).map fun user => { user with peer := none } else p.users other) ∧
    (pairUserDestroy p (some id)).wait = p.wait ∧ (pairUserDestroy p (some id)).entered = p.entered ∧
    (pairUserDestroy p (some id)).restart = p.restart := by
  rw [destroy_eq p id user there, own]
  refine ⟨⟨if sess.user1 = some id then { sess with user1 := none } else { sess with user2 := none }, ?_, ?_, ?_⟩, fun other => ?_, rfl, rfl, rfl⟩
  · rw [pairLeave, putSession, known]
    rfl
  · split <;> rfl
  · split <;> rfl
  · dsimp only
    rw [update_apply, unpeer_users]

theorem one_session (inv : PairInv strict p) (id : Nat) (ticket other : List UInt8) (sess sess_ : PairSession)
    (known : p.sessions ticket = some sess) (known_ : p.sessions other = some sess_) (inside : holds sess id) (inside_ : holds sess_ id) :
    other = ticket := by
  obtain ⟨user, there, own, _⟩ := inv.back _ sess id known inside
  obtain ⟨user_, there_, own_, _⟩ := inv.back _ _ id known_ inside_
  rw [Option.some.inj (there.symm.trans there_)] at own
  exact Option.some.inj (own_.symm.trans own)

theorem peer_inside (inv : PairInv strict p) (id : Nat) (user : PairUser) (there : p.users id = some user) (ticket : List UInt8)
    (own : user.sess = some ticket) (sess : PairSession) (known : p.sessions ticket = some sess) (peer : Nat) (has : user.peer = some peer) :
    holds sess peer := by
  obtain ⟨other, ticket_, there_, _, own_, own_other, _⟩ := inv.peers id user peer there has
  obtain rfl : ticket = ticket_ := Option.some.inj (own.symm.trans own_)
  obtain ⟨sess_, known_, inside⟩ := inv.two peer _ _ there_ own_other
  rw [Option.some.inj (known.symm.trans known_)]
  exact inside

theorem users_destroyed (inv : PairInv strict p) (ticket : List UInt8) (sess : PairSession) (known : p.sessions ticket = some sess) :
    (∃ next, (pairUserDestroy (pairUserDestroy p sess.user1) sess.user2).sessions = Function.update p.sessions ticket (some next) ∧
      next.st = sess.st ∧ next.base = sess.base) ∧
    (∀ id, (pairUserDestroy (pairUserDestroy p sess.user1) sess.user2).users id = if holds sess id then none else p.users id) ∧
    (pairUserDestroy (pairUserDestroy p sess.user1) sess.user2).wait = p.wait ∧
    (pairUserDestroy (pairUserDestroy p sess.user1) sess.user2).entered = p.entered ∧
    (pairUserDestroy (pairUserDestroy p sess.user1) sess.user2).restart = p.restart := by
  have unchanged : p.sessions = update p.sessions ticket (some sess) := by
    rw [← known]
    exact (update_eq_self _ _).symm
  have outside (id : Nat) (other : Nat) (user : PairUser) (there : p.users id = some user) (own : user.sess = some _)
      (apart : ¬ holds sess _) : user.peer ≠ some _ := fun has => apart (peer_inside p inv id user there _ own sess known other has)
  cases first : sess.user1 with
  | none =>
    cases second : sess.user2 with
    | none =>
      refine ⟨⟨sess, unchanged, rfl, rfl⟩, fun id => (if_neg ?_).symm, rfl, rfl, rfl⟩
      rintro (one | other)
      · exact nomatch first.symm.trans one
      · exact nomatch second.symm.trans other
    | some two =>
      obtain ⟨user, there, own, _⟩ := inv.back _ sess two known (.inr second)
      obtain ⟨sessions, users, rest⟩ := destroy_attached p two user there _ own sess known
      refine ⟨sessions, fun id => (users id).trans ?_, rest⟩
      by_cases same : id = two
      · rw [if_pos same, if_pos (show holds sess id from .inr (second.trans (congrArg some same.symm)))]
      · have apart : ¬ holds sess id := by
          rintro (one | other)
          · exact nomatch first.symm.trans one
          · exact same (Option.some.inj (second.symm.trans other)).symm
        rw [if_neg same, if_neg (outside two id user there own apart), if_neg apart]
  | some one =>
    obtain ⟨user, there, own, _⟩ := inv.back _ sess one known (.inl first)
    obtain ⟨⟨next, sessions, st, base⟩, users, wait, entered, restart⟩ := destroy_attached p one user there _ own sess known
    cases second : sess.user2 with
    | none =>
      refine ⟨⟨next, sessions, st, base⟩, fun id => (users id).trans ?_, wait, entered, restart⟩
      by_cases same : id = one
      · rw [if_pos same, if_pos (show holds sess id from .inl (first.trans (congrArg some same.symm)))]
      · have apart : ¬ holds sess id := by
          rintro (one_ | other)
          · exact same (Option.some.inj (first.symm.trans one_)).symm
          · exact nomatch second.symm.trans other
        rw [if_neg same, if_neg (outside one id user there own apart), if_neg apart]
    | some two =>
      have differ : two ≠ one := fun same => inv.slots _ sess one known first (same ▸ second)
      obtain ⟨other, there_, own_, _⟩ := inv.back _ sess two known (.inr second)
      have there_next : (pairUserDestroy p (some one)).users two =
          some (if user.peer = some two then { other with peer := none } else other) := by
        rw [users two, if_neg differ, there_]
        split <;> rfl
      have own_next : (if user.peer = some two then { other with peer := none } else other).sess = some ticket := by
        split <;> exact own_
      have known_next : (pairUserDestroy p (some one)).sessions ticket = some next := by
        rw [sessions]
        exact update_self ..
      obtain ⟨⟨last, sessions_, st_, base_⟩, users_, wait_, entered_, restart_⟩ :=
        destroy_attached _ two _ there_next _ own_next next known_next
      refine ⟨⟨last, ?_, st_.trans st, base_.trans base⟩, fun id => (users_ id).trans ?_, wait_.trans wait, entered_.trans entered,
        restart_.trans restart⟩
      · rw [sessions_, sessions, update_idem]
      · by_cases same : id = two
        · rw [if_pos same, if_pos (show holds sess id from .inr (second.trans (congrArg some same.symm)))]
        · rw [if_neg same]
          by_cases same_ : id = one
          · have gone : (pairUserDestroy p (some one)).users id = none := by rw [users id, if_pos same_]
            rw [gone, if_pos (show holds sess id from .inl (first.trans (congrArg some same_.symm)))]
            exact ite_self none
          · have apart : ¬ holds sess id := by
              rintro (one_ | other_)
              · exact same_ (Option.some.inj (first.symm.trans one_)).symm
              · exact same (Option.some.inj (second.symm.trans other_)).symm
            have lone : (if user.peer = some two then { other with peer := none } else other).peer ≠ some id := by
              split
              · exact nofun
              · exact outside two id _ there_ own_ apart
            rw [if_neg lone, users id, if_neg same_, if_neg (outside one id user there own apart), if_neg apart]

theorem shutdown_eq (inv : PairInv strict p) (ticket : List UInt8) (sess : PairSession) (known : p.sessions ticket = some sess) :
    (∀ id, (pairShutdown p ticket).users id = if holds sess id then none else p.users id) ∧
    (pairShutdown p ticket).sessions = Function.update p.sessions ticket (some ⟨sess.st, none, none, none, false⟩) ∧
    (pairShutdown p ticket).entered = p.entered ∧
    (pairShutdown p ticket).restart = (if ticket ∈ p.restart then p.restart else p.restart ++ [ticket]) ∧
    ∀ child, (pairShutdown p ticket).wait child = if sess.base = some child then (p.wait child).erase ticket else p.wait child := by
  obtain ⟨⟨next, sessions, st, base⟩, users, wait, entered, restart⟩ := users_destroyed p inv _ sess known
  rw [pairShutdown, known]
  dsimp only
  generalize pairUserDestroy _ _ = q at sessions users wait entered restart ⊢
  have known_ : (pairDetach q ticket sess.base).sessions = update p.sessions ticket (some next) := by
    cases sess.base <;> exact sessions
  have same : (pairDetach q ticket sess.base).users = q.users ∧ (pairDetach q ticket sess.base).entered = q.entered ∧
      (pairDetach q ticket sess.base).restart = q.restart := by
    cases sess.base <;> exact ⟨rfl, rfl, rfl⟩
  refine ⟨fun id => (congrFun same.1 id).trans (users id), ?_, same.2.1.trans entered, ?_, fun child => ?_⟩
  · rw [putSession, known_, update_self, update_idem, ← st]
    rfl
  · show (if ticket ∈ (pairDetach q _ _).restart then _ else _) = _
    rw [show (putSession _ _ _).restart = _ from same.2.2.trans restart, same.2.2.trans restart]
  · show (pairDetach q _ _).wait _ = _
    rw [← wait]
    cases sess.base with
    | none => rfl
    | some own =>
      rw [pairDetach]
      dsimp only
      rw [update_apply]
      by_cases equal : child = own
      · rw [if_pos equal, if_pos (congrArg some equal.symm), equal]
      · rw [if_neg equal, if_neg fun both => equal (Option.some.inj both).symm]

theorem shutdown_keeps (inv : PairInv strict p) (ticket : List UInt8) (sess : PairSession) (known : p.sessions ticket = some sess)
    (out : ∀ child, ticket ∉ p.wait child) : PairInv strict (pairShutdown p ticket) := by
  obtain ⟨users, sessions, entered, restart, wait⟩ := shutdown_eq p inv _ sess known
  have waits (child : Nat) : (pairShutdown p ticket).wait child = p.wait child := by
    rw [wait]
    split
    · exact List.erase_of_not_mem (out _)
    · rfl
  have stays (id : Nat) (user : PairUser) (there : (pairShutdown p ticket).users id = some user) : p.users id = some user ∧ ¬ holds sess id := by
    rw [users] at there
    split at there
    · exact nomatch there
    · rename_i apart
      exact ⟨there, apart⟩
  have elsewhere (id : Nat) (user : PairUser) (there : p.users id = some user) (apart : ¬ holds sess id) : user.sess ≠ some ticket := by
    intro own
    obtain ⟨sess_, known_, inside⟩ := inv.two id user _ there own
    rw [← Option.some.inj (known.symm.trans known_)] at inside
    exact apart inside
  have keeps (other : List _) (differs : other ≠ ticket) : (pairShutdown p ticket).sessions other = p.sessions other := by
    rw [sessions]
    exact update_of_ne differs ..
  have outside (other : List _) (differs : other ≠ ticket) (sess_ : PairSession) (there : p.sessions other = some sess_) (id : Nat)
      (inside : holds sess_ id) : (pairShutdown p ticket).users id = p.users id := by
    rw [users, if_neg]
    exact fun both => differs (one_session p inv id _ _ sess _ known there both inside)
  refine ⟨⟨fun id user own there belongs => ?_, fun id user peer there has => ?_, ?_⟩, fun own sess_ id there inside => ?_,
    fun own sess_ id there first => ?_, fun child own there => ?_, fun child => ?_⟩
  · obtain ⟨before, apart⟩ := stays id user there
    obtain ⟨sess_, known_, inside⟩ := inv.two id user own before belongs
    have differs : own ≠ ticket := fun same => elsewhere id user before apart (same ▸ belongs)
    exact ⟨sess_, (keeps own differs).trans known_, inside⟩
  · obtain ⟨before, apart⟩ := stays id user there
    obtain ⟨other, own, known_other, back, belongs, belongs_other, presented⟩ := inv.peers id user peer before has
    have differs : own ≠ ticket := fun same => elsewhere id user before apart (same ▸ belongs)
    obtain ⟨sess_, known_, inside⟩ := inv.two peer _ own known_other belongs_other
    exact ⟨other, own, (outside own differs _ known_ peer inside).trans known_other, back, belongs, belongs_other, presented⟩
  · rw [entered]
    exact inv.entered
  · by_cases same : own = ticket
    · rw [same, sessions, update_self] at there
      rw [← Option.some.inj there] at inside
      exact inside.elim nofun nofun
    · rw [keeps own same] at there
      obtain ⟨user, known_user, rest⟩ := inv.back own _ id there inside
      exact ⟨user, (outside own same _ there id inside).trans known_user, rest⟩
  · by_cases same : own = ticket
    · rw [same, sessions, update_self] at there
      rw [← Option.some.inj there] at first
      exact nomatch first
    · rw [keeps own same] at there
      exact inv.slots own _ id there first
  · rw [waits] at there
    have differs : own ≠ ticket := fun same => out _ (same ▸ there)
    obtain ⟨new, sess_, one, other, known_, first, second, timer, base, still, still_⟩ := inv.waits _ own there
    have same (id : Nat) (inside : holds sess_ id) (calm : Still strict p id) : Still strict (pairShutdown p ticket) id := by
      obtain ⟨user, known_user, rest⟩ := calm
      exact ⟨user, (outside own differs _ known_ id inside).trans known_user, rest⟩
    refine ⟨?_, sess_, one, other, (keeps own differs).trans known_, first, second, timer, base, same one (.inl first) still,
      same _ (.inr second) still_⟩
    rw [restart]
    split
    · exact new
    · rw [List.mem_append, List.mem_singleton]
      exact fun either => either.elim new differs
  · rw [waits]
    exact inv.once _

theorem busy_out (inv : PairInv strict p) (id : Nat) (user : PairUser) (there : p.users id = some user)
    (busy : user.event = true ∨ user.timer = true) (ticket : List UInt8) (own : user.sess = some ticket) (child : Nat) : ticket ∉ p.wait child := by
  intro waits
  obtain ⟨_, sess, one, other, known, first, second, _, _, still, still_⟩ := inv.waits _ _ waits
  obtain ⟨sess_, known_, inside⟩ := inv.two id user _ there own
  rw [← Option.some.inj (known.symm.trans known_)] at inside
  have calm : Still strict p id := by
    rcases inside with one_ | other_
    · rw [← Option.some.inj (first.symm.trans one_)]
      exact still
    · rw [← Option.some.inj (second.symm.trans other_)]
      exact still_
  obtain ⟨user_, there_, _, event, timer⟩ := calm
  rw [Option.some.inj (there.symm.trans there_)] at busy
  rcases busy with set | set
  · exact nomatch event.symm.trans set
  · exact nomatch timer.symm.trans set

theorem touch_inv (inv : PairInv strict p) (id : Nat) (change : PairUser → PairUser)
    (kept : ∀ user, (change user).sess = user.sess ∧ (change user).peer = user.peer ∧ (change user).presented = user.presented)
    (out : ∀ user ticket child, p.users id = some user → user.sess = some ticket → ticket ∉ p.wait child) : PairInv strict (putUser p id change) := by
  have old (other : Nat) (user : PairUser) (there : (putUser p id change).users other = some user) :
      ∃ before, p.users other = some before ∧ user.sess = before.sess ∧ user.peer = before.peer ∧ user.presented = before.presented := by
    rw [put_users] at there
    split at there
    · rename_i same
      obtain ⟨before, known, rfl⟩ := Option.map_eq_some_iff.mp there
      exact ⟨before, same ▸ known, kept _⟩
    · exact ⟨user, there, rfl, rfl, rfl⟩
  have new (other : Nat) (before : PairUser) (there : p.users other = some before) : ∃ user, (putUser p id change).users other = some user ∧
      user.sess = before.sess ∧ user.peer = before.peer ∧ user.presented = before.presented := by
    rw [put_users]
    split
    · rename_i same
      exact ⟨change _, by rw [← same, there]; rfl, kept _⟩
    · exact ⟨before, there, rfl, rfl, rfl⟩
  refine ⟨⟨fun other user ticket there own => ?_, fun other user peer there has => ?_, inv.entered⟩, fun ticket sess other there inside => ?_,
    inv.slots, fun child ticket there => ?_, inv.once⟩
  · obtain ⟨before, known, sess, _⟩ := old _ user there
    exact inv.two _ _ _ known (sess.symm.trans own)
  · obtain ⟨before, known, sess, peer_, presented⟩ := old _ user there
    obtain ⟨one, ticket, known_one, back, own, own_one, shown, shown_one⟩ := inv.peers _ _ peer known (peer_.symm.trans has)
    obtain ⟨one_, there_, sess_, peer__, presented_⟩ := new peer one known_one
    exact ⟨one_, ticket, there_, peer__.trans back, sess.trans own, sess_.trans own_one, presented.trans shown, presented_.trans shown_one⟩
  · obtain ⟨before, known, own, shown⟩ := inv.back _ sess _ there inside
    obtain ⟨user, there_, sess_, _, presented⟩ := new _ _ known
    exact ⟨user, there_, sess_.trans own, presented.trans shown⟩
  · obtain ⟨fresh, sess, one, other, known, first, second, timer, base, still, still_⟩ := inv.waits _ _ there
    have same (one : Nat) (inside : holds sess one) (calm : Still strict p one) : Still strict (putUser p id change) one := by
      obtain ⟨user, known_user, rest⟩ := calm
      obtain ⟨user_, known_user_, own, _⟩ := inv.back _ sess one known inside
      refine ⟨user, ?_, rest⟩
      rw [put_users, if_neg]
      · exact known_user
      · intro equal
        exact out _ _ _ (equal ▸ known_user_) own there
    exact ⟨fresh, sess, one, other, known, first, second, timer, base, same one (.inl first) still, same _ (.inr second) still_⟩

theorem touch_busy (inv : PairInv strict p) (id : Nat) (user : PairUser) (there : p.users id = some user)
    (busy : user.event = true ∨ user.timer = true) (change : PairUser → PairUser)
    (kept : ∀ user, (change user).sess = user.sess ∧ (change user).peer = user.peer ∧ (change user).presented = user.presented) :
    PairInv strict (putUser p id change) :=
  touch_inv p inv id _ kept fun user_ ticket child there_ own => by
    rw [← Option.some.inj (there.symm.trans there_)] at own
    exact busy_out p inv id user there busy _ own _

theorem touch_lone (inv : PairInv strict p) (id : Nat) (user : PairUser) (there : p.users id = some user) (lone : user.sess = none)
    (change : PairUser → PairUser)
    (kept : ∀ user, (change user).sess = user.sess ∧ (change user).peer = user.peer ∧ (change user).presented = user.presented) :
    PairInv strict (putUser p id change) :=
  touch_inv p inv id _ kept fun user_ _ _ there_ own => by
    rw [← Option.some.inj (there.symm.trans there_), lone] at own
    exact nomatch own

end

end Codec.Fwd
