import Mathlib.Data.List.Nodup
import Codec.Fwd.Pairs

set_option autoImplicit false

namespace Codec.Fwd

open Function

variable {strict : Prop}

section Session

variable (p : Pairing) (inv : PairInv strict p) (ticket : List UInt8)

include inv

omit ticket in
theorem sessions_inv (change : List UInt8 → PairSession → PairSession) (changed : List UInt8 → Prop) [DecidablePred changed]
    (restart : List (List UInt8)) (kept : ∀ own sess, (change own sess).user1 = sess.user1 ∧ (change own sess).user2 = sess.user2)
    (out : ∀ child, ∀ own ∈ p.wait child, own ∉ restart ∧ ¬ changed own) : PairInv strict { p with
      restart := restart
      sessions := fun own => if changed own then (p.sessions own).map (change own) else p.sessions own } := by
  have old (own : List _) (sess : PairSession)
      (there : (if changed own then (p.sessions own).map (change own) else p.sessions own) = some sess) :
      ∃ before, p.sessions own = some before ∧ sess.user1 = before.user1 ∧ sess.user2 = before.user2 := by
    split at there
    · obtain ⟨before, known, rfl⟩ := Option.map_eq_some_iff.mp there
      exact ⟨before, known, kept own _⟩
    · exact ⟨sess, there, rfl, rfl⟩
  refine ⟨⟨fun id user own there belongs => ?_, inv.peers, inv.entered⟩, fun own sess id there inside => ?_, fun own sess id there first => ?_,
    fun child own there => ?_, inv.once⟩
  · obtain ⟨sess, known, inside⟩ := inv.two id user own there belongs
    by_cases here : changed own
    · refine ⟨change own sess, (if_pos here).trans (by rw [known]; rfl), ?_⟩
      rw [holds, (kept own sess).1, (kept own sess).2]
      exact inside
    · exact ⟨sess, (if_neg here).trans known, inside⟩
  · obtain ⟨before, known, first, second⟩ := old own sess there
    refine inv.back own _ id known ?_
    rw [holds, ← first, ← second]
    exact inside
  · obtain ⟨before, known, first_, second⟩ := old own sess there
    rw [second]
    exact inv.slots own _ id known (first_.symm.trans first)
  · obtain ⟨_, sess, one, other, known, rest⟩ := inv.waits _ own there
    exact ⟨(out _ own there).1, sess, one, other, (if_neg (out _ own there).2).trans known, rest⟩

theorem session_inv (change : PairSession → PairSession)
    (kept : ∀ sess, (change sess).user1 = sess.user1 ∧ (change sess).user2 = sess.user2) (out : ∀ child, ticket ∉ p.wait child) :
    PairInv strict (putSession p ticket change) := by
  have changed := sessions_inv p inv _ (fun own => own = ticket) _ (fun _ => kept) fun child own there =>
    ⟨(inv.waits _ own there).1, fun same => out _ (same ▸ there)⟩
  have same : (fun own => if own = ticket then (p.sessions own).map change else p.sessions own) = (putSession p ticket change).sessions := by
    funext own
    rw [put_sessions]
    split
    · rename_i here
      rw [here]
    · rfl
  rw [same] at changed
  exact changed

theorem gone_inv (restart : List (List UInt8)) (fewer : ∀ own ∈ restart, own ∈ p.restart) (sess : PairSession) (known : p.sessions ticket = some sess)
    (empty : sess.user1 = none ∧ sess.user2 = none) (out : ∀ child, ticket ∉ p.wait child) :
    PairInv strict { p with restart := restart, sessions := Function.update p.sessions ticket none } := by
  have keeps (own : List _) (differs : own ≠ ticket) : update p.sessions _ none own = p.sessions own := update_of_ne differs ..
  have old (own : List _) (sess : PairSession) (there : update p.sessions ticket none own = some sess) : p.sessions own = some sess := by
    rw [update_apply] at there
    split at there
    · exact nomatch there
    · exact there
  refine ⟨⟨fun id user own there belongs => ?_, inv.peers, inv.entered⟩, fun own sess id there => inv.back own sess id (old own sess there),
    fun own sess id there => inv.slots own sess id (old own sess there), fun child own there => ?_, inv.once⟩
  · obtain ⟨sess_, known_, inside⟩ := inv.two id user own there belongs
    refine ⟨sess_, (keeps own ?_).trans known_, inside⟩
    rintro rfl
    rw [← Option.some.inj (known.symm.trans known_)] at inside
    rcases inside with first | second
    · exact nomatch empty.1.symm.trans first
    · exact nomatch empty.2.symm.trans second
  · obtain ⟨fresh, sess_, one, other, known_, rest⟩ := inv.waits _ own there
    refine ⟨fun queued => fresh (fewer own queued), sess_, one, other, (keeps own ?_).trans known_, rest⟩
    exact fun same => out _ (same ▸ there)

theorem fired_inv (sess : PairSession) (known : p.sessions ticket = some sess) (out : ∀ child, ticket ∉ p.wait child) : PairInv strict (pairFired p ticket) := by
  obtain ⟨_, sessions, _, _, wait⟩ := shutdown_eq p inv _ sess known
  refine gone_inv _ (shutdown_keeps p inv _ sess known out) _ _ (fun own => List.mem_of_mem_filter)
    ⟨sess.st, none, none, none, false⟩ ?_ ⟨rfl, rfl⟩ ?_
  · rw [sessions]
    exact update_self ..
  · intro child
    rw [wait]
    split
    · exact fun there => out _ (List.mem_of_mem_erase there)
    · exact out _

end Session

section User

variable (p : Pairing) (inv : PairInv strict p) (id : Nat) (user : PairUser) (there : p.users id = some user)

include inv there

theorem lone_inv (own : user.sess = none) : PairInv strict (pairUserDestroy p (some id)) := by
  have lone : user.peer = none := by
    cases has : user.peer with
    | none => rfl
    | some peer =>
      obtain ⟨_, _, _, _, belongs, _⟩ := inv.peers id user peer there has
      exact nomatch own.symm.trans belongs
  rw [destroy_eq p id user there, own, lone]
  have old (other : Nat) (user_ : PairUser) (known : update p.users id none other = some user_) : other ≠ id ∧ p.users other = some user_ := by
    rw [update_apply] at known
    split at known
    · exact nomatch known
    · rename_i differs
      exact ⟨differs, known⟩
  have keeps (other : Nat) (user_ : PairUser) (known : p.users other = some user_) (some_ : user_.sess ≠ none) :
      update p.users id none other = some user_ := by
    rw [update_of_ne]
    · exact known
    · rintro rfl
      exact some_ (Option.some.inj (there.symm.trans known) ▸ own)
  refine ⟨⟨fun other user_ ticket known => inv.two _ _ _ (old _ _ known).2, fun other user_ peer known has => ?_, inv.entered⟩,
    fun ticket sess other known inside => ?_, inv.slots, fun child ticket waits => ?_, inv.once⟩
  · obtain ⟨one, ticket, known_one, back, belongs, belongs_one, shown⟩ := inv.peers _ _ peer (old _ _ known).2 has
    exact ⟨one, ticket, keeps peer one known_one (by rw [belongs_one]; exact nofun), back, belongs, belongs_one, shown⟩
  · obtain ⟨user_, known_, belongs, shown⟩ := inv.back _ sess _ known inside
    exact ⟨user_, keeps _ _ known_ (by rw [belongs]; exact nofun), belongs, shown⟩
  · obtain ⟨fresh, sess, one, other, known, first, second, timer, base, still, still_⟩ := inv.waits _ _ waits
    have same (one : Nat) (inside : holds sess one) (calm : Still strict p one) : Still strict { p with users := update p.users id none } one := by
      obtain ⟨user_, known_, rest⟩ := calm
      obtain ⟨user__, known__, belongs, _⟩ := inv.back _ sess one known inside
      have equal := Option.some.inj (known_.symm.trans known__)
      exact ⟨user_, keeps one _ known_ (by rw [equal, belongs]; exact nofun), rest⟩
    exact ⟨fresh, sess, one, other, known, first, second, timer, base, same one (.inl first) still, same _ (.inr second) still_⟩

theorem user_error_inv (out : ∀ ticket child, user.sess = some ticket → ticket ∉ p.wait child) : PairInv strict (pairUserError p id) := by
  rw [pairUserError, there]
  cases own : user.sess with
  | none =>
    rw [Option.bind_some, own]
    exact lone_inv p inv id user there own
  | some ticket =>
    obtain ⟨sess, known, _⟩ := inv.two id user _ there own
    rw [Option.bind_some, own]
    exact shutdown_keeps p inv _ sess known fun child => out _ _ own

end User

theorem counters_inv (p : Pairing) (inv : PairInv strict p) (serve : Nat → List (List UInt8)) (nWait nSess : Nat → Int) :
    PairInv strict { p with serve := serve, nWait := nWait, nSess := nSess } :=
  ⟨{ inv with }, inv.back, inv.slots, inv.waits, inv.once⟩

section Bind

variable (p : Pairing) (inv : PairInv strict p) (id : Nat) (user : PairUser) (there : p.users id = some user) (busy : user.event = true)
  (own : user.sess = none) (ticket : List UInt8) (sess : PairSession) (known : p.sessions ticket = some sess)
  (free : ¬ (sess.user1.isSome ∧ sess.user2.isSome))

include inv there own known free

def seated (sess : PairSession) (id : Nat) : PairSession :=
  if sess.user1 = none then { sess with user1 := some id, timer := false } else { sess with user2 := some id, timer := false }

omit there own in
theorem free_out (child : Nat) : ticket ∉ p.wait child := by
  intro waits
  obtain ⟨_, sess_, one, other, known_, first, second, _⟩ := inv.waits _ _ waits
  rw [← Option.some.inj (known.symm.trans known_)] at first second
  exact free ⟨by rw [first]; rfl, by rw [second]; rfl⟩

omit known free in
theorem unseated (other : List UInt8) (sess_ : PairSession) (known_ : p.sessions other = some sess_) : ¬ holds sess_ id := by
  intro inside
  obtain ⟨user_, there_, belongs, _⟩ := inv.back _ _ id known_ inside
  rw [← Option.some.inj (there.symm.trans there_), own] at belongs
  exact nomatch belongs

theorem seated_cases : (sess.user1 = none ∧ seated sess id = { sess with user1 := some id, timer := false } ∧ nextUser (seated sess id) id = sess.user2) ∨
    ∃ peer, sess.user1 = some peer ∧ sess.user2 = none ∧ seated sess id = { sess with user2 := some id, timer := false } ∧
      nextUser (seated sess id) id = some peer := by
  have absent := unseated p inv id user there own _ sess known
  cases first : sess.user1 with
  | none =>
    have same : seated sess id = { sess with user1 := some id, timer := false } := if_pos first
    refine .inl ⟨rfl, same, ?_⟩
    rw [same]
    exact if_pos rfl
  | some peer =>
    have same : seated sess id = { sess with user2 := some id, timer := false } := if_neg (by rw [first]; exact nofun)
    have second : sess.user2 = none := by
      cases second : sess.user2 with
      | none => rfl
      | some other => exact absurd ⟨by rw [first]; rfl, by rw [second]; rfl⟩ free
    refine .inr ⟨peer, rfl, second, same.trans (by rw [first]), ?_⟩
    rw [same]
    exact (if_neg fun equal => absent (.inl equal)).trans first

theorem seated_holds (other : Nat) : holds (seated sess id) other ↔ other = id ∨ holds sess other := by
  rcases seated_cases p inv id user there own _ sess known free with ⟨none_, same, _⟩ | ⟨_, _, none_, same, _⟩
  · rw [same, holds, holds, none_, eq_comm (a := other)]
    simp
  · rw [same, holds, holds, none_, eq_comm (a := other)]
    simp [or_comm]

theorem seated_slots (other : Nat) (first : (seated sess id).user1 = some other) : (seated sess id).user2 ≠ some other := by
  have absent := unseated p inv id user there own _ sess known
  rcases seated_cases p inv id user there own _ sess known free with ⟨_, same, _⟩ | ⟨_, _, _, same, _⟩
  · rw [same] at first ⊢
    rw [← Option.some.inj first]
    exact fun second => absent (.inr second)
  · rw [same] at first ⊢
    rintro second
    rw [← Option.some.inj second] at first
    exact absent (.inl first)

theorem bind_inv (users : Nat → Option PairUser) (next : PairSession) (restart : List (List UInt8)) (wait : Nat → List (List UInt8))
    (seat : next.user1 = (seated sess id).user1 ∧ next.user2 = (seated sess id).user2)
    (bound : ∃ bound, users id = some bound ∧ bound.sess = some ticket ∧ bound.presented = some ticket)
    (others : ∀ other, other ≠ id → ¬ holds sess other → users other = p.users other)
    (inside : ∀ other, holds sess other → ∀ before, p.users other = some before →
      ∃ after, users other = some after ∧ after.sess = before.sess ∧ after.presented = before.presented)
    (peers : ∀ one, one = id ∨ holds sess one → ∀ user peer, users one = some user → user.peer = some peer →
      (peer = id ∨ holds sess peer) ∧ ∃ other, users peer = some other ∧ other.peer = some one)
    (fewer : ∀ one ∈ restart, one ∈ p.restart) (waits : ∀ child, ∀ one ∈ wait child, one ∈ p.wait child ∨ (one = ticket ∧
      WaitsIn strict { p with users := users, sessions := Function.update p.sessions ticket (some next), restart := restart, wait := wait } child one))
    (once : ∀ child, (wait child).Nodup) :
    PairInv strict { p with users := users, sessions := Function.update p.sessions ticket (some next), restart := restart, wait := wait } := by
  have seats (other : Nat) : holds next other ↔ other = id ∨ holds sess other := by
    rw [← seated_holds p inv id user there own _ sess known free, holds, holds, seat.1, seat.2]
  have known_inside (other : Nat) (member : other = id ∨ holds sess other) : ∃ after, users other = some after ∧ after.sess = some ticket ∧
      after.presented = some ticket := by
    rcases member with rfl | member
    · exact bound
    · obtain ⟨before, known_before, belongs, shown⟩ := inv.back _ sess _ known member
      obtain ⟨after, known_after, sess_, presented⟩ := inside _ member _ known_before
      exact ⟨after, known_after, sess_.trans belongs, presented.trans shown⟩
  have apart (other : Nat) (before : PairUser) (known_before : p.users other = some before) (one : List _) (belongs : before.sess = some one)
      (differs : one ≠ ticket) : users other = p.users other := by
    refine others _ ?_ fun member => ?_
    · rintro rfl
      rw [← Option.some.inj (there.symm.trans known_before), own] at belongs
      exact nomatch belongs
    · obtain ⟨before_, known_before_, belongs_, _⟩ := inv.back _ sess _ known member
      rw [← Option.some.inj (known_before.symm.trans known_before_)] at belongs_
      exact differs (Option.some.inj (belongs.symm.trans belongs_))
  have keeps (one : List _) (differs : one ≠ ticket) : update p.sessions _ (some next) one = p.sessions one :=
    update_of_ne differs ..
  have itself : update p.sessions _ _ ticket = some next := update_self ..
  refine ⟨⟨fun other user_ one there_ belongs => ?_, fun one user_ peer there_ has => ?_, inv.entered⟩, fun one sess_ other there_ member => ?_,
    fun one sess_ other there_ first => ?_, fun child one member => ?_, once⟩
  · by_cases member : other = id ∨ holds sess other
    · obtain ⟨after, known_after, belongs_, _⟩ := known_inside _ member
      rw [Option.some.inj (there_.symm.trans known_after)] at belongs
      rw [Option.some.inj (belongs.symm.trans belongs_)]
      exact ⟨next, update_self .., (seats _).mpr member⟩
    · rw [not_or] at member
      have same : p.users _ = some _ := (others _ member.1 member.2).symm.trans there_
      obtain ⟨sess_, known_, held⟩ := inv.two _ _ one same belongs
      have differs : one ≠ ticket := by
        rintro rfl
        exact member.2 (Option.some.inj (known.symm.trans known_) ▸ held)
      exact ⟨sess_, (keeps one differs).trans known_, held⟩
  · by_cases member : one = id ∨ holds sess one
    · obtain ⟨member_, other, known_other, back⟩ := peers one member _ peer there_ has
      obtain ⟨after, known_after, belongs, shown⟩ := known_inside one member
      obtain ⟨after_, known_after_, belongs_, shown_⟩ := known_inside peer member_
      obtain rfl := Option.some.inj (there_.symm.trans known_after)
      obtain rfl := Option.some.inj (known_other.symm.trans known_after_)
      exact ⟨other, ticket, known_other, back, belongs, belongs_, shown, shown_⟩
    · rw [not_or] at member
      have same : p.users one = some _ := (others one member.1 member.2).symm.trans there_
      obtain ⟨other, own_, known_other, back, belongs, belongs_, shown⟩ := inv.peers one _ peer same has
      have differs : own_ ≠ ticket := by
        rintro rfl
        obtain ⟨sess_, known_, held⟩ := inv.two one _ own_ same belongs
        exact member.2 (Option.some.inj (known.symm.trans known_) ▸ held)
      exact ⟨other, own_, (apart peer _ known_other own_ belongs_ differs).trans known_other, back, belongs, belongs_, shown⟩
  · have there_ : update p.sessions _ _ one = some _ := there_
    by_cases same : one = ticket
    · rw [same, itself] at there_
      rw [← Option.some.inj there_] at member
      rw [same]
      exact known_inside _ ((seats _).mp member)
    · rw [keeps one same] at there_
      obtain ⟨before, known_before, belongs, shown⟩ := inv.back one _ _ there_ member
      exact ⟨before, (apart _ _ known_before one belongs same).trans known_before, belongs, shown⟩
  · have there_ : update p.sessions _ _ one = some _ := there_
    by_cases same : one = ticket
    · rw [same, itself] at there_
      rw [← Option.some.inj there_, seat.1] at first
      rw [← Option.some.inj there_, seat.2]
      exact seated_slots p inv id user there own _ sess known free _ first
    · rw [keeps one same] at there_
      exact inv.slots one _ _ there_ first
  · rcases waits _ one member with old | ⟨_, new⟩
    · have differs : one ≠ ticket := fun same => free_out p inv _ sess known free _ (same ▸ old)
      obtain ⟨fresh, sess_, first, second, known_, rest⟩ := inv.waits _ one old
      obtain ⟨held, held_, timer, base, still, still_⟩ := rest
      have same (other : Nat) (inside_ : holds sess_ other) (calm : Still strict p other) :
          Still strict { p with users := users, sessions := update p.sessions ticket (some next), restart := restart, wait := wait } other := by
        obtain ⟨user_, known_user, rest⟩ := calm
        obtain ⟨before, known_before, belongs, _⟩ := inv.back one _ _ known_ inside_
        exact ⟨user_, (apart _ _ known_before one belongs differs).trans known_user, rest⟩
      exact ⟨fun queued => fresh (fewer one queued), sess_, first, second, (keeps one differs).trans known_, held, held_, timer, base,
        same _ (.inl held) still, same _ (.inr held_) still_⟩
    · exact new

theorem bind_alone (none_ : nextUser (seated sess id) id = none) :
    PairInv strict { putUser p id (fun user => { user with sess := some ticket, peer := none, presented := some ticket, st := .watting, timer := true }) with
      sessions := Function.update p.sessions ticket (some { seated sess id with st := .watting }) } := by
  have empty (other : Nat) : ¬ holds sess other := by
    rcases seated_cases p inv id user there own _ sess known free with ⟨first, _, next⟩ | ⟨_, _, _, _, next⟩
    · rintro (one | two)
      · exact nomatch first.symm.trans one
      · exact nomatch (next.symm.trans none_).symm.trans two
    · exact nomatch next.symm.trans none_
  refine bind_inv p inv id user there own _ sess known free _ _ _ _ ⟨rfl, rfl⟩ ?_ (fun other differs _ => ?_)
    (fun other member => absurd member (empty _)) (fun one member user_ peer there_ has => ?_) (fun _ queued => queued) (fun _ _ => .inl) inv.once
  · exact ⟨_, by rw [put_users, if_pos rfl, there]; rfl, rfl, rfl⟩
  · rw [put_users, if_neg differs]
  · rcases member with rfl | member
    · rw [put_users, if_pos rfl, there] at there_
      rw [← Option.some.inj there_] at has
      exact nomatch has
    · exact absurd member (empty one)

theorem bind_peer (calm : ¬ refused user.st)
    (fine : ∀ other, holds sess other → ∀ user, p.users other = some user → strict → ¬ refused user.st)
    (peer : Nat) (next : nextUser (seated sess id) id = some peer) (child : Nat) : PairInv strict { p with
      users := (putUser (putUser p id fun user => { user with sess := some ticket, peer := some peer, presented := some ticket, event := false, timer := false })
        peer fun other => { other with peer := some id, event := false, timer := false }).users
      sessions := Function.update p.sessions ticket (some { seated sess id with base := some child })
      restart := p.restart.filter (· ≠ ticket)
      wait := Function.update p.wait child (p.wait child ++ [ticket]) } := by
  have absent := unseated p inv id user there own _ sess known
  have only (other : Nat) : holds sess other ↔ other = peer := by
    rcases seated_cases p inv id user there own _ sess known free with ⟨first, _, next_⟩ | ⟨one, first, second, _, next_⟩
    · rw [holds, first, next_.symm.trans next]
      simp [eq_comm]
    · rw [holds, first, second, next_.symm.trans next]
      simp [eq_comm]
  have member : holds sess peer := (only peer).mpr rfl
  have differ : peer ≠ id := fun same => absent (same ▸ member)
  obtain ⟨other, known_other, belongs, shown⟩ := inv.back _ sess peer known member
  generalize users : (putUser _
    peer fun other => { other with peer := some id, event := false, timer := false }).users = users_
  have of_id : users_ id = some { user with sess := some ticket, peer := some peer, presented := some ticket, event := false, timer := false } := by
    rw [← users, put_users, if_neg differ.symm, put_users, if_pos rfl, there]
    rfl
  have of_peer : users_ peer = some { other with peer := some id, event := false, timer := false } := by
    rw [← users, put_users, if_pos rfl, put_users, if_neg differ, known_other]
    rfl
  refine bind_inv p inv id user there own _ sess known free _ _ _ _ ⟨rfl, rfl⟩ ⟨_, of_id, rfl, rfl⟩ (fun one differs apart => ?_)
    (fun one inside before there_ => ?_) (fun one inside user_ peer_ there_ has => ?_) (fun one => List.mem_of_mem_filter) (fun child_ one queued => ?_)
    (fun child_ => ?_)
  · rw [← users, put_users, if_neg fun same => apart (by rw [same]; exact member), put_users, if_neg differs]
  · obtain rfl := (only one).mp inside
    obtain rfl := Option.some.inj (known_other.symm.trans there_)
    exact ⟨_, of_peer, rfl, rfl⟩
  · rcases inside with rfl | inside
    · rw [← Option.some.inj (of_id.symm.trans there_)] at has
      obtain rfl := Option.some.inj has
      exact ⟨.inr member, _, of_peer, rfl⟩
    · obtain rfl := (only one).mp inside
      rw [← Option.some.inj (of_peer.symm.trans there_)] at has
      obtain rfl := Option.some.inj has
      exact ⟨.inl rfl, _, of_id, rfl⟩
  · rw [update_apply] at queued
    split at queued
    · rename_i same
      rcases List.mem_append.mp queued with old | new
      · exact .inl (same ▸ old)
      · have equal := List.mem_singleton.mp new
        have still (q : Pairing) (same : q.users = users_) : Still strict q id :=
          ⟨{ user with sess := some _, peer := some peer, presented := some _, event := false, timer := false }, by rw [same]; exact of_id,
            fun _ => calm, rfl, rfl⟩
        have still_ (q : Pairing) (same : q.users = users_) : Still _ q peer :=
          ⟨{ other with peer := some id, event := false, timer := false }, by rw [same]; exact of_peer, fine peer member other known_other, rfl, rfl⟩
        refine .inr ⟨equal, ?_, { seated sess id with base := some child }, ?_⟩
        · rw [equal]
          simp
        · rw [equal, same]
          rcases seated_cases p inv id user there own _ sess known free with ⟨first, seat, next_⟩ | ⟨one_, first, second, seat, next_⟩
          · refine ⟨id, peer, update_self .., ?_, ?_, ?_, rfl, still _ rfl, still_ _ rfl⟩
            · rw [seat]
            · rw [seat]
              exact next_.symm.trans next
            · rw [seat]
          · refine ⟨peer, id, update_self .., ?_, ?_, ?_, rfl, still_ _ rfl, still _ rfl⟩
            · rw [seat]
              exact first.trans (next_.symm.trans next)
            · rw [seat]
            · rw [seat]
    · exact .inl queued
  · rw [update_apply]
    split
    · have new := free_out p inv _ sess known free child
      exact List.nodup_append.mpr ⟨inv.once _, List.nodup_singleton _, fun one before two after => by
        rintro rfl
        exact new (List.mem_singleton.mp after ▸ before)⟩
    · exact inv.once _

end Bind

theorem auth_bind_inv (p : Pairing) (inv : PairInv strict p) (id : Nat) (user : PairUser) (there : p.users id = some user) (own : user.sess = none)
    (calm : ¬ refused user.st) (ticket : List UInt8) (child : Nat)
    (fine : ∀ sess, p.sessions ticket = some sess → ¬ (sess.st = .est ∨ (sess.user1.isSome ∧ sess.user2.isSome)) →
      ∀ other, holds sess other → ∀ user, p.users other = some user → strict → ¬ refused user.st) : PairInv strict (userAuthAndBindSession p id ticket child) := by
  have refuses : PairInv _ (pairStClean p id) := touch_lone p inv id user there own _ fun _ => ⟨rfl, rfl, rfl⟩
  rw [userAuthAndBindSession]
  cases known : p.sessions _ with
  | none => exact refuses
  | some sess =>
    dsimp only
    by_cases used : sess.st = .est ∨ (sess.user1.isSome ∧ sess.user2.isSome)
    · rw [if_pos used]
      exact refuses
    · have free : ¬ (sess.user1.isSome ∧ sess.user2.isSome) := fun both => used (.inr both)
      rw [if_neg used, show (if sess.user1 = none then _ else _) = seated sess id from rfl]
      cases next : nextUser _ id with
      | none => exact bind_alone p inv id user there own _ sess known free next
      | some peer =>
        exact counters_inv _ (bind_peer p inv id user there own _ sess known free calm (fine sess known used) peer next _) _
          _ _

end Codec.Fwd
