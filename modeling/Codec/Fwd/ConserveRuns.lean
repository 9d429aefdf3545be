import Codec.Fwd.Conserve

set_option autoImplicit false

namespace Codec.Fwd

open Function

section Callback

theorem handle_eq (p : Pairing) (child : Nat) (ticket : List UInt8) (sess : PairSession) (known : p.sessions ticket = some sess) :
    (∀ id, ¬ holds sess id → (pairHandle p child ticket).users id = p.users id) ∧
    (pairHandle p child ticket).sessions = Function.update p.sessions ticket (some { sess with st := .est, base := some child, timer := true }) ∧
    (pairHandle p child ticket).restart = p.restart ∧ (pairHandle p child ticket).nWait = p.nWait ∧
    (pairHandle p child ticket).nSess = Function.update p.nSess child (p.nSess child + 1) ∧
    (pairHandle p child ticket).serve = Function.update p.serve child (p.serve child ++ [ticket]) := by
  have same (q : Pairing) (id : Option Nat) : pairStEst q id = { q with users := (pairStEst q id).users } := by cases id <;> rfl
  have away (q : Pairing) (own : Option Nat) (id : Nat) (differs : own ≠ some id) : (pairStEst q own).users id = q.users id := by
    cases own with
    | none => rfl
    | some own =>
      rw [pairStEst, put_users, if_neg]
      rintro rfl
      exact differs rfl
  rw [pairHandle, known]
  dsimp only
  rw [same _ _, same _ sess.user1]
  refine ⟨fun id apart => ?_, ?_, rfl, rfl, rfl, rfl⟩
  · show (pairStEst _ _).users id = _
    rw [away _ _ _ fun second => apart (.inr second)]
    exact away _ _ _ fun first => apart (.inl first)
  · show update _ _ _ = _
    rw [known]
    rfl

theorem cons_handle (p : Pairing) (inv : ConsInv p) (pair : PairInv False p) (child : Nat) (ticket : List UInt8) (rest : List (List UInt8))
    (queue : p.wait child = ticket :: rest) :
    ConsInv (pairHandle { p with wait := Function.update p.wait child rest } child ticket) := by
  obtain ⟨fresh, sess, one, two, known, first, second, timer, base, _⟩ := pair.waits _ _ (by rw [queue]; exact List.mem_cons_self)
  obtain ⟨users, sessions, restart, _, nSess, serve⟩ := handle_eq { p with wait := update _ _ rest } _ _ sess known
  have wait := handle_wait { p with wait := update p.wait child rest } child ticket
  generalize pairHandle _ _ _ = q at *
  have keeps (own : List _) (differs : own ≠ ticket) : q.sessions own = p.sessions own := by
    rw [sessions]
    exact update_of_ne differs ..
  have itself : q.sessions ticket = some { sess with st := .est, base := some child, timer := true } := by
    rw [sessions]
    exact update_self ..
  have fewer (other : Nat) (own : List _) (queued : own ∈ q.wait other) : own ∈ p.wait other ∧ own ≠ ticket := by
    have distinct := pair.once child
    rw [queue] at distinct
    rw [show q.wait _ = update p.wait _ rest _ from congrFun wait _, update_apply] at queued
    split at queued
    · rename_i same
      rw [same, queue]
      exact ⟨List.mem_cons_of_mem _ queued, fun equal => (List.nodup_cons.mp distinct).1 (equal ▸ queued)⟩
    · rename_i differs
      refine ⟨queued, ?_⟩
      rintro rfl
      obtain ⟨sess_, known_, base_, _⟩ := inv.waiting _ own queued
      rw [← Option.some.inj (known.symm.trans known_), base] at base_
      exact differs (Option.some.inj base_).symm
  have new (other : Nat) : ticket ∉ p.serve other := by
    intro queued
    obtain ⟨sess_, known_, _, timer_⟩ := inv.served _ _ queued
    rw [← Option.some.inj (known.symm.trans known_), timer] at timer_
    exact nomatch timer_
  have servedBy (other : Nat) (own : List _) : own ∈ q.serve other ↔ own ∈ p.serve other ∨ (other = child ∧ own = ticket) := by
    rw [show q.serve _ = update p.serve _ _ _ from congrFun serve _, update_apply]
    split
    · rename_i same
      simp [same]
    · rename_i differs
      simp [differs]
  refine ⟨fun own sess_ known_ => ?_, fun other own queued => ?_, fun other own queued => ?_, fun other => ?_, fun other => ?_, fun own queued => ?_⟩
  · by_cases same : own = ticket
    · rw [same, itself] at known_
      rw [← Option.some.inj known_, same]
      refine ⟨.serve _, rfl, rfl, .inl rfl, by rw [first]; rfl, by rw [second]; rfl, ?_, (servedBy _ _).mpr (.inr ⟨rfl, rfl⟩)⟩
      rw [restart]
      exact fresh
    · rw [keeps own same] at known_
      obtain ⟨place, stands⟩ := inv.stands own _ known_
      refine ⟨place, stands_frame p _ own _ _ stands (by rw [restart]) (fun other queued => ?_) (fun other queued => ?_)
        fun id only user there calm => ⟨user, ?_, calm⟩⟩
      · rw [show q.wait _ = update p.wait _ rest _ from congrFun wait _, update_apply]
        split
        · rename_i equal
          rw [equal, queue] at queued
          exact (List.mem_cons.mp queued).resolve_left same
        · exact queued
      · exact (servedBy _ own).mpr (.inl queued)
      · refine (users id fun both => ?_).trans there
        exact same (one_session p pair id _ own sess _ known known_ both (only_holds _ id only))
  · obtain ⟨queued_, differs⟩ := fewer _ own queued
    obtain ⟨sess_, known_, rest_⟩ := inv.waiting _ own queued_
    exact ⟨sess_, (keeps own differs).trans known_, rest_⟩
  · rcases (servedBy _ own).mp queued with old | ⟨same, equal⟩
    · obtain ⟨sess_, known_, rest_⟩ := inv.served _ own old
      exact ⟨sess_, (keeps own fun same => new _ (same ▸ old)).trans known_, rest_⟩
    · rw [same, equal]
      exact ⟨_, itself, rfl, rfl⟩
  · rw [show q.serve _ = update p.serve _ _ _ from congrFun serve _, update_apply]
    split
    · exact List.nodup_append.mpr ⟨inv.once _, List.nodup_singleton _, fun one before two after => by
        rintro rfl
        exact new _ (List.mem_singleton.mp after ▸ before)⟩
    · exact inv.once _
  · rw [show q.serve _ = update p.serve _ _ _ from congrFun serve _, update_apply,
      show q.nSess _ = update p.nSess _ _ _ from congrFun nSess _, update_apply]
    split
    · rw [inv.nSess _, List.length_append, List.length_singleton]
      rfl
    · exact inv.nSess _
  · rw [restart] at queued
    by_cases same : own = ticket
    · rw [same, itself]
      exact nofun
    · rw [keeps own same]
      exact inv.hashed own queued

theorem handle_nwait (p : Pairing) (child : Nat) (ticket : List UInt8) : (pairHandle p child ticket).nWait = p.nWait := by
  cases known : p.sessions _ with
  | none => rw [pairHandle, known]
  | some sess => exact (handle_eq p _ _ sess known).2.2.2.1

theorem cons_callback (p : Pairing) (inv : ConsInv p) (pair : PairInv False p) (nWait : ∀ child, p.nWait child = (p.wait child).length) (child : Nat) :
    ConsInv (pairCallback p child) ∧ ∀ other, (pairCallback p child).nWait other = ((pairCallback p child).wait other).length := by
  obtain ⟨⟨inv_, _, same⟩, wait⟩ := callback_run (fun q => ConsInv q ∧ PairInv _ q ∧ q.nWait = p.nWait) _
    (fun q ticket rest kept queue => ⟨cons_handle q kept.1 kept.2.1 _ _ rest queue, pop_inv q kept.2.1 _ _ rest queue,
      (handle_nwait _ _ _).trans kept.2.2⟩) _ p ⟨inv, pair, rfl⟩ rfl
  rw [pairCallback]
  split
  · exact ⟨inv, nWait⟩
  refine ⟨{ inv_ with }, fun other => ?_⟩
  dsimp only
  rw [wait, same, update_apply, update_apply]
  split
  · rfl
  · exact nWait _

end Callback

section Step

variable (p : Pairing) (inv : ConsInv p) (pair : PairInv False p)

include inv pair

theorem busy_place (id : Nat) (user : PairUser) (there : p.users id = some user) (busy : user.event = true ∨ user.timer = true)
    (ticket : List UInt8) (own : user.sess = some ticket) : ∃ sess, p.sessions ticket = some sess ∧ holds sess id ∧
      ((Stands p ticket sess .watting ∧ waits user) ∨ ∃ child, Stands p ticket sess (.serve child)) := by
  obtain ⟨sess, known, inside⟩ := pair.two id user _ there own
  obtain ⟨place, stands⟩ := inv.stands _ sess known
  refine ⟨sess, known, inside, ?_⟩
  have empty (first : sess.user1 = none) (second : sess.user2 = none) : False :=
    inside.elim (fun one => nomatch first.symm.trans one) fun two => nomatch second.symm.trans two
  cases place with
  | main => exact (empty stands.2.2.1 stands.2.2.2.1).elim
  | restart => exact (empty stands.2.2.1 stands.2.2.2.1).elim
  | wait child => exact absurd stands.2.2.2.2.2 (busy_out p pair id user there busy _ own _)
  | serve child => exact .inr ⟨child, stands⟩
  | watting =>
    refine .inl ⟨stands, ?_⟩
    obtain ⟨_, _, _, _, other, user_, only, there_, calm⟩ := stands
    have same : id = other := by
      rcases only with ⟨first, second⟩ | ⟨first, second⟩
      · exact inside.elim (fun one => Option.some.inj (one.symm.trans first)) fun two => nomatch second.symm.trans two
      · exact inside.elim (fun one => nomatch first.symm.trans one) fun two => Option.some.inj (two.symm.trans second)
    rw [same] at there
    rw [Option.some.inj (there.symm.trans there_)]
    exact calm

theorem cons_user_error (users : Nat → Option PairUser) (id : Nat) (user next : PairUser) (there : p.users id = some user)
    (there_ : users id = some next) (same : next.sess = user.sess) (others : ∀ other, other ≠ id → users other = p.users other)
    (pair_ : PairInv False { p with users := users }) (busy : user.event = true ∨ user.timer = true) :
    ConsInv (pairUserError { p with users := users } id) ∧ (pairUserError { p with users := users } id).wait = p.wait ∧
    (pairUserError { p with users := users } id).nWait = p.nWait := by
  rw [pairUserError, show ({ p with users := users } : Pairing).users id = some next from there_, Option.bind_some]
  cases own : next.sess with
  | some ticket =>
    obtain ⟨sess, known, inside, _⟩ := busy_place p inv pair id user there busy _ (same.symm.trans own)
    exact cons_shutdown p inv _ pair_ _ sess known (busy_out p pair id user there busy _ (same.symm.trans own))
      fun other apart => others _ fun equal => apart (equal ▸ inside)
  | none =>
    have lone : next.peer = none := by
      cases has : next.peer with
      | none => rfl
      | some peer =>
        obtain ⟨_, _, _, _, belongs, _⟩ := pair_.peers id next peer there_ has
        cases own.symm.trans belongs
    rw [destroy_eq _ id next there_, own, lone]
    refine ⟨⟨fun ticket sess known => ?_, inv.waiting, inv.served, inv.once, inv.nSess, inv.hashed⟩, rfl, rfl⟩
    obtain ⟨place, stands⟩ := inv.stands _ sess known
    refine ⟨place, stands_frame p _ _ sess _ stands Iff.rfl (fun _ queued => queued) (fun _ queued => queued)
      fun other only user_ known_user calm => ⟨user_, ?_, calm⟩⟩
    have differs : other ≠ id := by
      rintro rfl
      obtain ⟨before, known_before, belongs, _⟩ := pair.back _ sess _ known (only_holds sess _ only)
      rw [Option.some.inj (there.symm.trans known_before)] at same
      cases own.symm.trans (same.trans belongs)
    exact (update_of_ne differs ..).trans ((others _ differs).trans known_user)

omit pair in
theorem cons_restart : ConsInv (pairStep p .restart) := by
  have empty (one : List _) (queued : one ∈ p.restart) (sess : PairSession) (known : p.sessions one = some sess) : Stands p one sess .restart := by
    obtain ⟨place, stands⟩ := inv.stands one sess known
    cases place with
    | main => exact absurd queued stands.2.2.2.2.2
    | watting => exact absurd queued stands.2.2.2.1
    | wait child => exact absurd queued stands.2.2.2.2.1
    | serve child => exact absurd queued stands.2.2.2.2.2.1
    | restart => exact stands
  have based (one : List _) (sess : PairSession) (child : Nat) (known : p.sessions one = some sess) (base : sess.base = some child) :
      (pairStep p .restart).sessions one = some sess := by
    refine (if_neg fun queued => ?_).trans known
    exact nomatch base.symm.trans (empty one queued sess known).2.1
  refine ⟨fun one sess known => ?_, fun child one queued => ?_, fun child one queued => ?_, inv.once, inv.nSess, nofun⟩
  · by_cases queued : one ∈ p.restart
    · rw [show (pairStep p .restart).sessions one = _ from if_pos queued] at known
      obtain ⟨before, there, rfl⟩ := Option.map_eq_some_iff.mp known
      obtain ⟨_, base, first, second, _⟩ := empty one queued _ there
      exact ⟨.main, rfl, rfl, first, second, base, List.not_mem_nil⟩
    · rw [show (pairStep p .restart).sessions one = _ from if_neg queued] at known
      obtain ⟨place, stands⟩ := inv.stands one sess known
      exact ⟨place, stands_frame p _ one sess _ stands (iff_of_false List.not_mem_nil queued) (fun _ there => there) (fun _ there => there)
        fun id _ user there calm => ⟨user, there, calm⟩⟩
  · obtain ⟨sess, known, base, timer⟩ := inv.waiting _ one queued
    exact ⟨sess, based one sess _ known base, base, timer⟩
  · obtain ⟨sess, known, base, timer⟩ := inv.served _ one queued
    exact ⟨sess, based one sess _ known base, base, timer⟩

omit pair in
theorem cons_accept (id : Nat) : ConsInv (pairStep p (.accept id)) := by
  rw [pairStep]
  cases there : p.users id with
  | some user => exact inv
  | none =>
    refine ⟨fun one sess known => ?_, inv.waiting, inv.served, inv.once, inv.nSess, inv.hashed⟩
    obtain ⟨place, stands⟩ := inv.stands one sess known
    refine ⟨place, stands_frame p _ one sess _ stands Iff.rfl (fun _ queued => queued) (fun _ queued => queued)
      fun other _ user known_user calm => ⟨user, ?_, calm⟩⟩
    refine (update_of_ne ?_ ..).trans known_user
    rintro rfl
    cases there.symm.trans known_user

omit pair in
theorem cons_ticket_in (ticket : List UInt8) : ConsInv (pairStep p (.ticketIn ticket)) := by
  rw [pairStep]
  cases there : p.sessions _ with
  | some sess => exact inv
  | none =>
    have keeps (one : List _) (sess : PairSession) (known : p.sessions one = some sess) :
        update p.sessions ticket (some ⟨.inited, none, none, none, true⟩) one = some sess := by
      refine (update_of_ne ?_ ..).trans known
      rintro rfl
      cases there.symm.trans known
    refine ⟨fun one sess known => ?_, fun child one queued => ?_, fun child one queued => ?_, inv.once, inv.nSess, fun one queued => ?_⟩
    · have known : update p.sessions _ _ one = some sess := known
      by_cases same : one = ticket
      · rw [same, update_self] at known
        rw [← Option.some.inj known, same]
        exact ⟨.main, rfl, rfl, rfl, rfl, rfl, fun queued => inv.hashed _ queued there⟩
      · rw [update_of_ne same] at known
        obtain ⟨place, stands⟩ := inv.stands one sess known
        exact ⟨place, stands_frame p _ one sess _ stands Iff.rfl (fun _ queued => queued) (fun _ queued => queued)
          fun id _ user known_user calm => ⟨user, known_user, calm⟩⟩
    · obtain ⟨sess, known, rest⟩ := inv.waiting _ one queued
      exact ⟨sess, keeps one sess known, rest⟩
    · obtain ⟨sess, known, rest⟩ := inv.served _ one queued
      exact ⟨sess, keeps one sess known, rest⟩
    · cases known : p.sessions one with
      | none => exact absurd known (inv.hashed one queued)
      | some sess =>
        show update p.sessions _ _ one ≠ none
        rw [keeps one sess known]
        rintro ⟨⟩

theorem cons_err_out (id peer : Nat) (user : PairUser) (there : p.users id = some user) (st : user.st = .est) (event : user.event = true)
    (ticket : List UInt8) (own : user.sess = some ticket) : ConsInv (pairErrOut p id peer ticket) := by
  have first := cons_touch p inv id (fun user => { user with event := false }) fun _ _ calm => calm
  have second : ConsInv _ :=
    cons_touch _ first peer (fun user => { user with st := .clean, event := true, timer := true }) fun _ _ _ => ⟨rfl, .inr rfl⟩
  obtain ⟨sess, known, _, place⟩ := busy_place p inv pair id user there (.inl event) _ own
  have serves : ∃ child, Stands p ticket sess (.serve child) := by
    refine place.resolve_left fun both => ?_
    rcases both.2.2 with waits | clean
    · exact nomatch st.symm.trans waits
    · exact nomatch st.symm.trans clean
  obtain ⟨child, base, timer, _, one, two, fresh, queued⟩ := serves
  have keeps (other : List _) (differs : other ≠ ticket) : (pairErrOut p id peer _).sessions _ = p.sessions _ :=
    update_of_ne differs ..
  have itself : (pairErrOut p id peer ticket).sessions ticket = some { sess with st := .clean, timer := true } := by
    refine (update_self ..).trans ?_
    show (p.sessions _).map _ = _
    rw [known]
    rfl
  refine ⟨fun other sess_ known_ => ?_, fun child_ other queued_ => ?_, fun child_ other queued_ => ?_, inv.once, inv.nSess, fun other queued_ => ?_⟩
  · by_cases same : other = ticket
    · rw [same, itself] at known_
      rw [← Option.some.inj known_, same]
      exact ⟨.serve _, base, rfl, .inr rfl, one, two, fresh, queued⟩
    · rw [keeps _ same] at known_
      obtain ⟨place_, stands⟩ := second.stands _ _ known_
      exact ⟨place_, stands_frame _ _ _ _ _ stands Iff.rfl (fun _ queued => queued) (fun _ queued => queued)
        fun id _ user known_user calm => ⟨user, known_user, calm⟩⟩
  · obtain ⟨sess_, known_, rest⟩ := inv.waiting _ _ queued_
    refine ⟨sess_, (keeps _ ?_).trans known_, rest⟩
    rintro rfl
    rw [← Option.some.inj (known.symm.trans known_), timer] at rest
    exact nomatch rest.2
  · obtain ⟨sess_, known_, rest⟩ := inv.served _ _ queued_
    by_cases same : other = ticket
    · rw [same] at known_ ⊢
      rw [← Option.some.inj (known.symm.trans known_)] at rest
      exact ⟨_, itself, rest.1, rfl⟩
    · exact ⟨sess_, (keeps _ same).trans known_, rest⟩
  · by_cases same : other = ticket
    · rw [same, itself]
      exact nofun
    · rw [keeps _ same]
      exact inv.hashed _ queued_

end Step

end Codec.Fwd
