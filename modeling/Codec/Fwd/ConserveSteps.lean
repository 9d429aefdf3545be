import Codec.Fwd.ConserveRuns

set_option autoImplicit false

namespace Codec.Fwd

open Function

structure KeptAll (p : Pairing) : Prop where
  pair : PairInv False p
  inv : ConsInv p
  nWait : ∀ child, p.nWait child = (p.wait child).length

section Bind

variable (p : Pairing) (kept : KeptAll p) (id : Nat) (user : PairUser) (there : p.users id = some user) (own : user.sess = none)
  (ticket : List UInt8) (sess : PairSession) (known : p.sessions ticket = some sess) (free : ¬ (sess.user1.isSome ∧ sess.user2.isSome))
  (fresh : ticket ∉ p.restart)

include kept known free fresh

theorem free_base : sess.base = none := by
  obtain ⟨place, stands⟩ := kept.inv.stands _ sess known
  cases place with
  | main => exact stands.2.2.2.2.1
  | watting => exact stands.2.2.1
  | wait child => exact absurd ⟨stands.2.2.1, stands.2.2.2.1⟩ free
  | serve child => exact absurd ⟨stands.2.2.2.1, stands.2.2.2.2.1⟩ free
  | restart => exact absurd stands.2.2.2.2 fresh

include there own

theorem seated_base : (seated sess id).base = none ∧ (seated sess id).timer = false := by
  have base := free_base p kept _ sess known free fresh
  rcases seated_cases p kept.pair id user there own _ sess known free with ⟨_, same, _⟩ | ⟨_, _, _, same, _⟩
  · rw [same]
    exact ⟨base, rfl⟩
  · rw [same]
    exact ⟨base, rfl⟩

theorem cons_alone (none_ : nextUser (seated sess id) id = none) :
    ConsInv { putUser p id (fun user => { user with sess := some ticket, peer := none, presented := some ticket, st := .watting, timer := true }) with
      sessions := Function.update p.sessions ticket (some { seated sess id with st := .watting }) } := by
  have base := free_base p kept _ sess known free fresh
  obtain ⟨base_, timer⟩ := seated_base p kept id user there own _ sess known free fresh
  refine cons_bind p kept.inv _ sess known base _ _ _ _ _ (fun one sess_ _ known_ other inside => ?_)
    (fun _ _ => Iff.rfl) (fun _ _ queued => queued) (fun _ _ queued => .inl queued) .watting ⟨rfl, timer, base_, fresh, id,
      { user with sess := some ticket, peer := none, presented := some ticket, st := .watting, timer := true }, ?_, ?_, rfl, .inl rfl⟩
  · rw [put_users, if_neg]
    rintro rfl
    exact unseated p kept.pair _ user there own one _ known_ inside
  · rcases seated_cases p kept.pair id user there own _ sess known free with ⟨_, same, next⟩ | ⟨_, _, _, _, next⟩
    · rw [same]
      exact .inl ⟨rfl, next.symm.trans none_⟩
    · exact nomatch next.symm.trans none_
  · rw [put_users, if_pos rfl, there]
    rfl

theorem cons_peer (peer : Nat) (next : nextUser (seated sess id) id = some peer) (child : Nat) : ConsInv { p with
      users := (putUser (putUser p id fun user => { user with sess := some ticket, peer := some peer, presented := some ticket, event := false, timer := false })
        peer fun other => { other with peer := some id, event := false, timer := false }).users
      sessions := Function.update p.sessions ticket (some { seated sess id with base := some child })
      restart := p.restart.filter (· ≠ ticket)
      wait := Function.update p.wait child (p.wait child ++ [ticket])
      nWait := Function.update p.nWait child (p.nWait child + 1) } := by
  have base := free_base p kept _ sess known free fresh
  obtain ⟨_, timer⟩ := seated_base p kept id user there own _ sess known free fresh
  have inside : holds sess peer := by
    rcases seated_cases p kept.pair id user there own _ sess known free with ⟨_, _, next_⟩ | ⟨one, first, _, _, next_⟩
    · exact .inr (next_.symm.trans next)
    · exact .inl (first.trans (next_.symm.trans next))
  refine cons_bind p kept.inv _ sess known base _ _ _ _ _ (fun one sess_ differs known_ other member => ?_)
    (fun one differs => ?_) (fun own one queued => ?_) (fun own one queued => ?_) (.wait _) ⟨rfl, timer, ?_, ?_, ?_, ?_⟩
  · have apart : other ≠ peer := by
      rintro rfl
      exact differs (one_session p kept.pair _ _ one sess _ known known_ inside member)
    rw [put_users, if_neg apart, put_users, if_neg]
    rintro rfl
    exact unseated p kept.pair _ user there own one _ known_ member
  · simp [differs]
  · rw [update_apply]
    split
    · rename_i same
      exact List.mem_append_left _ (same ▸ queued)
    · exact queued
  · rw [update_apply] at queued
    split at queued
    · rename_i same
      rw [same]
      exact (List.mem_append.mp queued).imp_right fun last => ⟨List.mem_singleton.mp last, rfl, timer⟩
    · exact .inl queued
  · rcases seated_cases p kept.pair id user there own _ sess known free with ⟨_, same, _⟩ | ⟨_, first, _, same, _⟩
    · rw [same]
      rfl
    · rw [same, first]
      rfl
  · rcases seated_cases p kept.pair id user there own _ sess known free with ⟨_, same, next_⟩ | ⟨_, _, _, same, _⟩
    · rw [same]
      rw [next_.symm.trans next]
      rfl
    · rw [same]
      rfl
  · simp
  · show ticket ∈ update p.wait _ _ _
    rw [update_self]
    exact List.mem_append_right _ (List.mem_singleton_self _)

end Bind

theorem kept_bind (p : Pairing) (kept : KeptAll p) (id : Nat) (user : PairUser) (there : p.users id = some user) (own : user.sess = none)
    (calm : ¬ refused user.st) (ticket : List UInt8) (child : Nat)
    (fresh : ∀ sess, p.sessions ticket = some sess → sess.st ≠ .est → ticket ∉ p.restart) : KeptAll (userAuthAndBindSession p id ticket child) := by
  have pair := auth_bind_inv p kept.pair id user there own calm ticket child fun _ _ _ _ _ _ _ => False.elim
  have refuses : ConsInv (pairStClean p id) := cons_touch p kept.inv id _ fun _ _ _ => ⟨rfl, .inr rfl⟩
  rw [userAuthAndBindSession] at pair ⊢
  cases known : p.sessions _ with
  | none =>
    rw [known] at pair
    exact ⟨pair, refuses, kept.nWait⟩
  | some sess =>
    rw [known] at pair
    dsimp only at pair ⊢
    by_cases used : sess.st = .est ∨ (sess.user1.isSome ∧ sess.user2.isSome)
    · rw [if_pos used] at pair ⊢
      exact ⟨pair, refuses, kept.nWait⟩
    · have free : ¬ (sess.user1.isSome ∧ sess.user2.isSome) := fun both => used (.inr both)
      have fresh := fresh sess known fun est => used (.inl est)
      rw [if_neg used, show (if sess.user1 = none then _ else _) = seated sess id from rfl] at pair ⊢
      cases next : nextUser _ id with
      | none =>
        rw [next] at pair
        exact ⟨pair, cons_alone p kept id user there own _ sess known free fresh next, kept.nWait⟩
      | some peer =>
        rw [next] at pair
        refine ⟨pair, cons_peer p kept id user there own _ sess known free fresh peer next _, fun other => ?_⟩
        show update p.nWait _ (p.nWait _ + 1) _ = ((update p.wait _ _ _).length : Int)
        rw [update_apply, update_apply]
        split
        · rw [List.length_append, List.length_singleton, kept.nWait _]
          rfl
        · exact kept.nWait _

section Session

variable (p : Pairing) (kept : KeptAll p)

include kept

theorem nwait_kept (q : Pairing) (wait : q.wait = p.wait) (nWait : q.nWait = p.nWait) (child : Nat) : q.nWait child = (q.wait child).length := by
  rw [wait, nWait]
  exact kept.nWait _

theorem timer_place (ticket : List UInt8) (sess : PairSession) (known : p.sessions ticket = some sess) (timer : sess.timer = true) :
    Stands p ticket sess .main ∨ ((sess.st = .est ∨ sess.st = .clean) ∧ ∀ child, ticket ∉ p.wait child) := by
  obtain ⟨place, stands⟩ := kept.inv.stands _ sess known
  cases place with
  | main => exact .inl stands
  | watting => exact nomatch timer.symm.trans stands.2.1
  | wait child => exact nomatch timer.symm.trans stands.2.1
  | restart => exact nomatch timer.symm.trans stands.1
  | serve child =>
    refine .inr ⟨stands.2.2.1, fun other queued => ?_⟩
    obtain ⟨sess_, known_, _, still⟩ := kept.inv.waiting _ _ queued
    rw [← Option.some.inj (known.symm.trans known_), timer] at still
    exact nomatch still

theorem kept_sess_timeout (ticket : List UInt8) (sess : PairSession) (known : p.sessions ticket = some sess) (timer : sess.timer = true) (idle : Bool) :
    KeptAll (pairSessTimeout p ticket sess idle) := by
  have pair := sess_timeout_inv p kept.pair _ sess known timer idle
  rcases timer_place p kept _ sess known timer with main | ⟨st, out⟩
  · rw [pairSessTimeout, main.1] at pair ⊢
    obtain ⟨inv, wait, nWait⟩ := cons_fired p kept.inv _ sess known kept.pair main
    exact ⟨pair, inv, nwait_kept p kept _ wait nWait⟩
  · have down : ConsInv _ ∧ (pairShutdown p _).wait = p.wait ∧ (pairShutdown p _).nWait = p.nWait :=
      cons_shutdown p kept.inv _ kept.pair _ sess known out fun _ _ => rfl
    rw [pairSessTimeout] at pair ⊢
    rcases st with est | clean
    · rw [est] at pair ⊢
      cases idle with
      | true => exact ⟨pair, down.1, nwait_kept p kept _ down.2.1 down.2.2⟩
      | false => exact kept
    · rw [clean] at pair ⊢
      exact ⟨pair, down.1, nwait_kept p kept _ down.2.1 down.2.2⟩

theorem kept_user_timeout (id : Nat) (user : PairUser) (there : p.users id = some user) (timer : user.timer = true) :
    KeptAll (pairUserTimeout p id user) := by
  have pair := user_timeout_inv p kept.pair id user there timer
  have cleans : ConsInv (pairStClean p id) := cons_touch p kept.inv id _ fun _ _ _ => ⟨rfl, .inr rfl⟩
  rw [pairUserTimeout] at pair ⊢
  split at pair
  · exact ⟨pair, cleans, kept.nWait⟩
  · exact ⟨pair, cleans, kept.nWait⟩
  · exact ⟨pair, cleans, kept.nWait⟩
  · have touched := touch_busy p kept.pair id user there (.inr timer) (fun user => { user with st := .error, timer := false }) fun _ => ⟨rfl, rfl, rfl⟩
    obtain ⟨inv, wait, nWait⟩ := cons_user_error p kept.inv kept.pair _ id user
      _ there (put_there p id user there _) rfl (fun other differs => by rw [put_users, if_neg differs])
      touched (.inr timer)
    exact ⟨pair, inv, nwait_kept p kept _ wait nWait⟩
  · obtain ⟨inv, wait, nWait⟩ := cons_user_error p kept.inv kept.pair _ id user user there there rfl (fun _ _ => rfl) kept.pair (.inr timer)
    exact ⟨pair, inv, nwait_kept p kept _ wait nWait⟩
  · rename_i accepted auth watting clean error
    refine ⟨pair, cons_touch p kept.inv id _ fun user_ there_ calm => ?_, kept.nWait⟩
    rw [← Option.some.inj (there.symm.trans there_)] at calm
    exact (calm.2.elim watting clean).elim

end Session

def FreshBind (p : Pairing) : PairStep → Prop
  | .register _ ticket _ => ∀ sess, p.sessions ticket = some sess → sess.st ≠ .est → ticket ∉ p.restart
  | _ => True

section Step

variable (p : Pairing) (kept : KeptAll p)

include kept

theorem kept_down (id : Nat) (user : PairUser) (there : p.users id = some user) (event : user.event = true) (ticket : List UInt8)
    (own : user.sess = some ticket) : ConsInv (pairShutdown p ticket) ∧ ∀ child, (pairShutdown p ticket).nWait child = ((pairShutdown p ticket).wait child).length := by
  have out (child : Nat) : ticket ∉ p.wait _ := busy_out p kept.pair id user there (.inl event) _ own child
  obtain ⟨sess, known, _⟩ := kept.pair.two id user _ there own
  obtain ⟨inv, wait, nWait⟩ := cons_shutdown p kept.inv _ kept.pair _ sess known out fun _ _ => rfl
  exact ⟨inv, nwait_kept p kept _ wait nWait⟩

theorem kept_user_error (users : Nat → Option PairUser) (id : Nat) (user next : PairUser) (there : p.users id = some user) (there_ : users id = some next)
    (same : next.sess = user.sess) (others : ∀ other, other ≠ id → users other = p.users other) (pair : PairInv False { p with users := users })
    (event : user.event = true) : ConsInv (pairUserError { p with users := users } id) ∧
    ∀ child, (pairUserError { p with users := users } id).nWait child = ((pairUserError { p with users := users } id).wait child).length := by
  obtain ⟨inv, wait, nWait⟩ := cons_user_error p kept.inv kept.pair _ id user next there there_ same others pair (.inl event)
  exact ⟨inv, nwait_kept p kept _ wait nWait⟩

theorem cons_step (step : PairStep) (fresh : FreshBind p step) :
    ConsInv (pairStep p step) ∧ ∀ child, (pairStep p step).nWait child = ((pairStep p step).wait child).length := by
  have does := pair_does p step
  generalize pairStep p step = after at does ⊢
  cases does with
  | nothing => exact ⟨kept.inv, kept.nWait⟩
  | accepts id =>
    refine ⟨cons_accept p kept.inv id, fun child => ?_⟩
    rw [pairStep]
    split <;> exact kept.nWait _
  | opens ticket =>
    refine ⟨cons_ticket_in p kept.inv _, fun child => ?_⟩
    rw [pairStep]
    split <;> exact kept.nWait _
  | restarts => exact ⟨cons_restart p kept.inv, kept.nWait⟩
  | calls child => exact cons_callback p kept.inv kept.pair kept.nWait _
  | binds id ticket child user there early lone =>
    have calm (user_ : PairUser) (there_ : p.users id = some user_) : ¬ waits user_ := by
      rw [← Option.some.inj (there.symm.trans there_)]
      rintro ⟨_, watting | clean⟩
      · exact early.elim (fun st => by cases st.symm.trans watting) (fun st => by cases st.symm.trans watting)
      · exact early.elim (fun st => by cases st.symm.trans clean) (fun st => by cases st.symm.trans clean)
    have pair := touch_lone p kept.pair id user there lone (fun user => { user with st := .auth, timer := true }) fun _ => ⟨rfl, rfl, rfl⟩
    have inv : ConsInv (putUser p id fun user => { user with st := .auth, timer := true }) :=
      cons_touch p kept.inv id _ fun user_ there_ waits_ => absurd waits_ (calm _ there_)
    have bound := kept_bind _ ⟨pair, inv, kept.nWait⟩ id _ (put_there p id user there _) lone
      (by rintro (clean | error) <;> contradiction) _ child fresh
    exact ⟨bound.inv, bound.nWait⟩
  | refuses id => exact ⟨cons_touch p kept.inv id _ fun _ _ _ => ⟨rfl, .inr rfl⟩, kept.nWait⟩
  | times id user there timer =>
    have kept_ := kept_user_timeout p kept id user there timer
    exact ⟨kept_.inv, kept_.nWait⟩
  | fails id user there event =>
    have touched := touch_busy p kept.pair id user there (.inl event) (fun user => { user with st := .error, event := false }) fun _ => ⟨rfl, rfl, rfl⟩
    exact kept_user_error p kept (putUser p id fun user => { user with st := .error, event := false }).users id user
      _ there (put_there p id user there _) rfl
      (fun other differs => by rw [put_users, if_neg differs]) touched event
  | flushes id user there event => exact kept_user_error p kept _ id user user there there rfl (fun _ _ => rfl) kept.pair event
  | leaves id peer ticket user there event own st => exact ⟨cons_err_out p kept.inv kept.pair id peer user there st event _ own, kept.nWait⟩
  | downs id left ticket user there event own => exact kept_down p kept id user there event _ own
  | expires ticket idle sess known timer =>
    have kept_ := kept_sess_timeout p kept _ sess known timer idle
    exact ⟨kept_.inv, kept_.nWait⟩

theorem kept_step (step : PairStep) (fresh : FreshBind p step) : KeptAll (pairStep p step) := by
  obtain ⟨inv, nWait⟩ := cons_step p kept step fresh
  exact ⟨pair_step_inv p kept.pair step False.elim, inv, nWait⟩

end Step

end Codec.Fwd
