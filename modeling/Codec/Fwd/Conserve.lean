import Codec.Fwd.PairRuns

set_option autoImplicit false

namespace Codec.Fwd

open Function

inductive PairPlace
  | main
  | watting
  | wait (child : Nat)
  | serve (child : Nat)
  | restart
deriving DecidableEq

def onlyUser (sess : PairSession) (id : Nat) : Prop := (sess.user1 = some id ∧ sess.user2 = none) ∨ (sess.user1 = none ∧ sess.user2 = some id)

theorem only_holds (sess : PairSession) (id : Nat) (only : onlyUser sess id) : holds sess id := only.imp And.left And.right

def At (p : Pairing) (ticket : List UInt8) (sess : PairSession) : PairPlace → Prop
  | .main => sess.st = .inited ∧ sess.timer = true
  | .watting => sess.st = .watting ∧ ∃ id user, onlyUser sess id ∧ p.users id = some user ∧ user.timer = true
  | .wait child => ticket ∈ p.wait child
  | .serve child => ticket ∈ p.serve child ∧ sess.timer = true
  | .restart => ticket ∈ p.restart ∧ sess.user1 = none ∧ sess.user2 = none

structure Conserved (p : Pairing) : Prop where
  placed : ∀ ticket sess, p.sessions ticket = some sess → ∃! place, At p ticket sess place
  counters : ∀ child, p.nSess child = (p.serve child).length ∧ p.nWait child = (p.wait child).length
  leaves : ∀ id user ticket, p.users id = some user → user.sess = some ticket → p.sessions ticket ≠ none

def waits (user : PairUser) : Prop := user.timer = true ∧ (user.st = .watting ∨ user.st = .clean)

def Stands (p : Pairing) (ticket : List UInt8) (sess : PairSession) : PairPlace → Prop
  | .main => sess.st = .inited ∧ sess.timer = true ∧ sess.user1 = none ∧ sess.user2 = none ∧ sess.base = none ∧ ticket ∉ p.restart
  | .watting => sess.st = .watting ∧ sess.timer = false ∧ sess.base = none ∧ ticket ∉ p.restart ∧
      ∃ id user, onlyUser sess id ∧ p.users id = some user ∧ waits user
  | .wait child => sess.base = some child ∧ sess.timer = false ∧ sess.user1.isSome ∧ sess.user2.isSome ∧ ticket ∉ p.restart ∧ ticket ∈ p.wait child
  | .serve child => sess.base = some child ∧ sess.timer = true ∧ (sess.st = .est ∨ sess.st = .clean) ∧ sess.user1.isSome ∧ sess.user2.isSome ∧
      ticket ∉ p.restart ∧ ticket ∈ p.serve child
  | .restart => sess.timer = false ∧ sess.base = none ∧ sess.user1 = none ∧ sess.user2 = none ∧ ticket ∈ p.restart

structure ConsInv (p : Pairing) : Prop where
  stands : ∀ ticket sess, p.sessions ticket = some sess → ∃ place, Stands p ticket sess place
  waiting : ∀ child, ∀ ticket ∈ p.wait child, ∃ sess, p.sessions ticket = some sess ∧ sess.base = some child ∧ sess.timer = false
  served : ∀ child, ∀ ticket ∈ p.serve child, ∃ sess, p.sessions ticket = some sess ∧ sess.base = some child ∧ sess.timer = true
  once : ∀ child, (p.serve child).Nodup
  nSess : ∀ child, p.nSess child = (p.serve child).length
  hashed : ∀ one ∈ p.restart, p.sessions one ≠ none

theorem stands_unique (p : Pairing) (inv : ConsInv p) (ticket : List UInt8) (sess : PairSession) (known : p.sessions ticket = some sess)
    (place other : PairPlace) (stands : Stands p ticket sess place) (there : At p ticket sess other) : other = place := by
  have waiting (child : Nat) (queued : ticket ∈ p.wait child) : sess.base = some child ∧ sess.timer = false := by
    obtain ⟨sess_, known_, rest⟩ := inv.waiting _ _ queued
    rw [Option.some.inj (known.symm.trans known_)]
    exact rest
  have served (child : Nat) (queued : ticket ∈ p.serve child) : sess.base = some child ∧ sess.timer = true := by
    obtain ⟨sess_, known_, rest⟩ := inv.served _ _ queued
    rw [Option.some.inj (known.symm.trans known_)]
    exact rest
  have lone (id : Nat) (only : onlyUser sess id) (both : sess.user1.isSome ∧ sess.user2.isSome) : False := by
    rcases only with ⟨_, none_⟩ | ⟨none_, _⟩
    · rw [none_] at both
      exact nomatch both.2
    · rw [none_] at both
      exact nomatch both.1
  cases place with
  | main =>
    obtain ⟨st, _, _, _, base, fresh⟩ := stands
    cases other with
    | main => rfl
    | watting => exact nomatch st.symm.trans there.1
    | wait child => exact nomatch base.symm.trans (waiting _ there).1
    | serve child => exact nomatch base.symm.trans (served _ there.1).1
    | restart => exact absurd there.1 fresh
  | watting =>
    obtain ⟨st, _, base, fresh, _⟩ := stands
    cases other with
    | main => exact nomatch st.symm.trans there.1
    | watting => rfl
    | wait child => exact nomatch base.symm.trans (waiting _ there).1
    | serve child => exact nomatch base.symm.trans (served _ there.1).1
    | restart => exact absurd there.1 fresh
  | wait own =>
    obtain ⟨base, timer, first, second, fresh, _⟩ := stands
    cases other with
    | main => exact nomatch timer.symm.trans there.2
    | watting =>
      obtain ⟨_, id, _, only, _⟩ := there
      exact (lone id only ⟨first, second⟩).elim
    | wait child => exact congrArg _ (Option.some.inj (base.symm.trans (waiting _ there).1)).symm
    | serve child => exact nomatch timer.symm.trans there.2
    | restart => exact absurd there.1 fresh
  | serve own =>
    obtain ⟨base, timer, st, first, second, fresh, _⟩ := stands
    cases other with
    | main => exact (st.elim (fun est => nomatch est.symm.trans there.1) fun clean => nomatch clean.symm.trans there.1)
    | watting =>
      obtain ⟨_, id, _, only, _⟩ := there
      exact (lone id only ⟨first, second⟩).elim
    | wait child => exact nomatch timer.symm.trans (waiting _ there).2
    | serve child => exact congrArg _ (Option.some.inj (base.symm.trans (served _ there.1).1)).symm
    | restart => exact absurd there.1 fresh
  | restart =>
    obtain ⟨timer, base, first, second, _⟩ := stands
    cases other with
    | main => exact nomatch timer.symm.trans there.2
    | watting =>
      obtain ⟨_, id, _, only, _⟩ := there
      rcases only with ⟨some_, _⟩ | ⟨_, some_⟩
      · exact nomatch first.symm.trans some_
      · exact nomatch second.symm.trans some_
    | wait child => exact nomatch base.symm.trans (waiting _ there).1
    | serve child => exact nomatch base.symm.trans (served _ there.1).1
    | restart => rfl

theorem stands_at (p : Pairing) (ticket : List UInt8) (sess : PairSession) (place : PairPlace) (stands : Stands p ticket sess place) :
    At p ticket sess place := by
  cases place with
  | main => exact ⟨stands.1, stands.2.1⟩
  | watting =>
    obtain ⟨st, _, _, _, id, user, only, there, timer, _⟩ := stands
    exact ⟨st, id, user, only, there, timer⟩
  | wait child => exact stands.2.2.2.2.2
  | serve child => exact ⟨stands.2.2.2.2.2.2, stands.2.1⟩
  | restart => exact ⟨stands.2.2.2.2, stands.2.2.1, stands.2.2.2.1⟩

theorem inv_conserved (p : Pairing) (pair : PairInv False p) (inv : ConsInv p) (nWait : ∀ child, p.nWait child = (p.wait child).length) : Conserved p := by
  refine ⟨fun ticket sess known => ?_, fun child => ⟨inv.nSess _, nWait _⟩, fun id user ticket there own gone => ?_⟩
  · obtain ⟨place, stands⟩ := inv.stands _ sess known
    exact ⟨place, stands_at p _ sess _ stands, fun other there => stands_unique p inv _ sess known _ _ stands there⟩
  · obtain ⟨sess, known, _⟩ := pair.two id user _ there own
    exact nomatch gone.symm.trans known

theorem stands_frame (p q : Pairing) (ticket : List UInt8) (sess : PairSession) (place : PairPlace) (stands : Stands p ticket sess place)
    (restart : ticket ∈ q.restart ↔ ticket ∈ p.restart) (wait : ∀ child, ticket ∈ p.wait child → ticket ∈ q.wait child)
    (serve : ∀ child, ticket ∈ p.serve child → ticket ∈ q.serve child)
    (users : ∀ id, onlyUser sess id → ∀ user, p.users id = some user → waits user → ∃ next, q.users id = some next ∧ waits next) :
    Stands q ticket sess place := by
  cases place with
  | main => exact ⟨stands.1, stands.2.1, stands.2.2.1, stands.2.2.2.1, stands.2.2.2.2.1, fun queued => stands.2.2.2.2.2 (restart.mp queued)⟩
  | watting =>
    obtain ⟨st, timer, base, fresh, id, user, only, there, calm⟩ := stands
    obtain ⟨next, there_, calm_⟩ := users id only user there calm
    exact ⟨st, timer, base, fun queued => fresh (restart.mp queued), id, next, only, there_, calm_⟩
  | wait child =>
    obtain ⟨base, timer, first, second, fresh, queued⟩ := stands
    exact ⟨base, timer, first, second, fun queued => fresh (restart.mp queued), wait _ queued⟩
  | serve child =>
    obtain ⟨base, timer, st, first, second, fresh, queued⟩ := stands
    exact ⟨base, timer, st, first, second, fun queued => fresh (restart.mp queued), serve _ queued⟩
  | restart =>
    obtain ⟨timer, base, first, second, queued⟩ := stands
    exact ⟨timer, base, first, second, restart.mpr queued⟩

theorem cons_touch (p : Pairing) (inv : ConsInv p) (id : Nat) (change : PairUser → PairUser)
    (kept : ∀ user, p.users id = some user → waits user → waits (change user)) : ConsInv (putUser p id change) := by
  refine ⟨fun ticket sess known => ?_, inv.waiting, inv.served, inv.once, inv.nSess, inv.hashed⟩
  obtain ⟨place, stands⟩ := inv.stands _ sess known
  refine ⟨place, stands_frame p _ _ sess _ stands Iff.rfl (fun _ there => there) (fun _ there => there) fun other only user there calm => ?_⟩
  rw [put_users]
  split
  · rename_i same
    rw [same] at there
    exact ⟨change user, by rw [there]; rfl, kept user there calm⟩
  · exact ⟨user, there, calm⟩

theorem destroy_queues (p : Pairing) (id : Option Nat) : (pairUserDestroy p id).serve = p.serve ∧ (pairUserDestroy p id).nSess = p.nSess ∧
    (pairUserDestroy p id).nWait = p.nWait := by
  cases id with
  | none => exact ⟨rfl, rfl, rfl⟩
  | some id =>
    cases there : p.users id with
    | none =>
      rw [pairUserDestroy, there]
      exact ⟨rfl, rfl, rfl⟩
    | some user =>
      rw [destroy_eq p id user there]
      exact ⟨rfl, rfl, rfl⟩

theorem shutdown_queues (p : Pairing) (ticket : List UInt8) (sess : PairSession) (known : p.sessions ticket = some sess) :
    (∀ child, (pairShutdown p ticket).serve child = if sess.base = some child then (p.serve child).erase ticket else p.serve child) ∧
    (∀ child, (pairShutdown p ticket).nSess child = if sess.base = some child then p.nSess child - 1 else p.nSess child) ∧
    (pairShutdown p ticket).nWait = p.nWait := by
  obtain ⟨serve, nSess, nWait⟩ := destroy_queues p _
  obtain ⟨serve_, nSess_, nWait_⟩ := destroy_queues (pairUserDestroy p _) _
  rw [pairShutdown, known]
  dsimp only
  rw [← serve, ← serve_, ← nSess, ← nSess_, ← nWait, ← nWait_]
  generalize pairUserDestroy _ _ = q
  cases sess.base with
  | none => exact ⟨fun _ => rfl, fun _ => rfl, rfl⟩
  | some own =>
    have taken {α : Type} (counts : Nat → α) (change : α → α) (child : Nat) :
        update counts own (change (counts own)) child = if some own = some child then change (counts child) else counts child := by
      rw [update_apply]
      by_cases equal : child = own
      · rw [if_pos equal, if_pos (congrArg some equal.symm), equal]
      · rw [if_neg equal, if_neg fun both => equal (Option.some.inj both).symm]
    exact ⟨taken q.serve (·.erase _), taken q.nSess (· - 1), rfl⟩

theorem cons_shutdown (p : Pairing) (inv : ConsInv p) (users : Nat → Option PairUser) (pair : PairInv False { p with users := users })
    (ticket : List UInt8) (sess : PairSession) (known : p.sessions ticket = some sess) (out : ∀ child, ticket ∉ p.wait child)
    (outside : ∀ id, ¬ holds sess id → users id = p.users id) : ConsInv (pairShutdown { p with users := users } ticket) ∧
    (pairShutdown { p with users := users } ticket).wait = p.wait ∧ (pairShutdown { p with users := users } ticket).nWait = p.nWait := by
  obtain ⟨users_, sessions, _, restart, wait⟩ := shutdown_eq _ pair _ sess known
  obtain ⟨serve, nSess, nWait⟩ := shutdown_queues { p with users := users } _ sess known
  have waits_same : (pairShutdown { p with users := users } ticket).wait = p.wait := by
    funext child
    rw [wait]
    split
    · exact List.erase_of_not_mem (out _)
    · rfl
  have member (child : Nat) (base : sess.base = some child) : ticket ∈ p.serve child := by
    obtain ⟨place, stands⟩ := inv.stands _ sess known
    cases place with
    | main => exact nomatch base.symm.trans stands.2.2.2.2.1
    | watting => exact nomatch base.symm.trans stands.2.2.1
    | wait own => exact absurd stands.2.2.2.2.2 (out own)
    | serve own =>
      rw [Option.some.inj (base.symm.trans stands.1)]
      exact stands.2.2.2.2.2.2
    | restart => exact nomatch base.symm.trans stands.2.1
  have keeps (one : List _) (differs : one ≠ ticket) : (pairShutdown { p with users := users } ticket).sessions one = p.sessions one := by
    rw [sessions]
    exact update_of_ne differs ..
  have left (child : Nat) (one : List _) (queued : one ∈ (pairShutdown { p with users := users } ticket).serve child) :
      one ∈ p.serve child ∧ one ≠ ticket := by
    rw [serve] at queued
    split at queued
    · obtain ⟨differs, queued_⟩ := ((inv.once _).mem_erase_iff).mp queued
      exact ⟨queued_, differs⟩
    · rename_i base
      refine ⟨queued, ?_⟩
      rintro rfl
      obtain ⟨sess_, known_, base_, _⟩ := inv.served _ one queued
      rw [← Option.some.inj (known.symm.trans known_)] at base_
      exact base base_
  refine ⟨⟨fun one sess_ known_ => ?_, fun child one queued => ?_, fun child one queued => ?_, fun child => ?_, fun child => ?_,
    fun one queued => ?_⟩, waits_same, nWait⟩
  · by_cases same : one = ticket
    · rw [same, sessions, update_self] at known_
      rw [← Option.some.inj known_, same]
      refine ⟨.restart, rfl, rfl, rfl, rfl, ?_⟩
      rw [restart]
      split
      · rename_i there
        exact there
      · exact List.mem_append_right _ (List.mem_singleton_self _)
    · rw [keeps one same] at known_
      obtain ⟨place, stands⟩ := inv.stands one _ known_
      refine ⟨place, stands_frame p _ one _ _ stands ?_ ?_ ?_ fun id only user there calm => ⟨user, ?_, calm⟩⟩
      · rw [restart]
        split
        · exact Iff.rfl
        · rw [List.mem_append, List.mem_singleton, or_iff_left same]
      · intro child queued
        rw [waits_same]
        exact queued
      · intro child queued
        rw [serve]
        split
        · exact (List.mem_erase_of_ne same).mpr queued
        · exact queued
      · have apart : ¬ holds sess id := fun both => same (one_session _ pair id _ one sess _ known known_ both (only_holds _ id only))
        rw [users_, if_neg apart]
        exact (outside id apart).trans there
  · rw [waits_same] at queued
    obtain ⟨sess_, known_, rest⟩ := inv.waiting _ one queued
    exact ⟨sess_, (keeps one fun same => out _ (same ▸ queued)).trans known_, rest⟩
  · obtain ⟨queued_, differs⟩ := left _ one queued
    obtain ⟨sess_, known_, rest⟩ := inv.served _ one queued_
    exact ⟨sess_, (keeps one differs).trans known_, rest⟩
  · rw [serve]
    split
    · exact (inv.once _).erase _
    · exact inv.once _
  · rw [serve, nSess]
    split
    · rename_i base
      have there := member _ base
      have some_ := List.length_pos_of_mem there
      have count : p.nSess _ = (p.serve _).length := inv.nSess child
      rw [List.length_erase_of_mem there, count]
      omega
    · exact inv.nSess _
  · by_cases same : one = ticket
    · rw [same, sessions, update_self]
      exact nofun
    · rw [keeps one same]
      rw [restart] at queued
      split at queued
      · exact inv.hashed one queued
      · exact inv.hashed one ((List.mem_append.mp queued).resolve_right fun last => same (List.mem_singleton.mp last))

section Session

variable (p : Pairing) (inv : ConsInv p) (ticket : List UInt8) (sess : PairSession) (known : p.sessions ticket = some sess)

include inv known

theorem lone_out (base : sess.base = none) : (∀ child, ticket ∉ p.wait child) ∧ ∀ child, ticket ∉ p.serve child := by
  refine ⟨fun child queued => ?_, fun child queued => ?_⟩
  · obtain ⟨sess_, known_, base_, _⟩ := inv.waiting _ _ queued
    rw [← Option.some.inj (known.symm.trans known_), base] at base_
    exact nomatch base_
  · obtain ⟨sess_, known_, base_, _⟩ := inv.served _ _ queued
    rw [← Option.some.inj (known.symm.trans known_), base] at base_
    exact nomatch base_

theorem cons_bind (base : sess.base = none) (users : Nat → Option PairUser) (next : PairSession) (restart : List (List UInt8))
    (wait : Nat → List (List UInt8)) (nWait : Nat → Int)
    (others : ∀ one sess_, one ≠ ticket → p.sessions one = some sess_ → ∀ id, holds sess_ id → users id = p.users id)
    (fewer : ∀ one, one ≠ ticket → (one ∈ restart ↔ one ∈ p.restart)) (more : ∀ child, ∀ one ∈ p.wait child, one ∈ wait child)
    (new : ∀ child, ∀ one ∈ wait child, one ∈ p.wait child ∨ (one = ticket ∧ next.base = some child ∧ next.timer = false))
    (place : PairPlace)
    (stands : Stands { p with users := users, sessions := Function.update p.sessions ticket (some next), restart := restart, wait := wait, nWait := nWait }
      ticket next place) :
    ConsInv { p with users := users, sessions := Function.update p.sessions ticket (some next), restart := restart, wait := wait, nWait := nWait } := by
  obtain ⟨out, out_⟩ := lone_out p inv _ sess known base
  have keeps (one : List _) (differs : one ≠ ticket) : update p.sessions _ (some next) one = p.sessions one :=
    update_of_ne differs ..
  have itself : update p.sessions _ _ ticket = some next := update_self ..
  refine ⟨fun one sess_ known_ => ?_, fun child one queued => ?_, fun child one queued => ?_, inv.once, inv.nSess, fun one queued => ?_⟩
  · have known_ : update p.sessions _ _ one = some _ := known_
    by_cases same : one = ticket
    · rw [same, itself] at known_
      rw [← Option.some.inj known_, same]
      exact ⟨place, stands⟩
    · rw [keeps one same] at known_
      obtain ⟨place_, stands_⟩ := inv.stands one _ known_
      refine ⟨place_, stands_frame p _ one _ _ stands_ (fewer one same) (fun child => more _ one) (fun _ there => there)
        fun id only user there calm => ⟨user, ?_, calm⟩⟩
      exact (others one _ same known_ id (only_holds _ id only)).trans there
  · rcases new _ one queued with old | ⟨same, base_, timer⟩
    · obtain ⟨sess_, known_, rest⟩ := inv.waiting _ one old
      exact ⟨sess_, (keeps one fun same => out _ (same ▸ old)).trans known_, rest⟩
    · rw [same]
      exact ⟨next, itself, base_, timer⟩
  · obtain ⟨sess_, known_, rest⟩ := inv.served _ one queued
    exact ⟨sess_, (keeps one fun same => out_ _ (same ▸ queued)).trans known_, rest⟩
  · show update p.sessions _ _ one ≠ none
    by_cases same : one = ticket
    · rw [same, itself]
      exact nofun
    · rw [keeps one same]
      exact inv.hashed one ((fewer one same).mp queued)

theorem cons_fired (pair : PairInv False p) (stands : Stands p ticket sess .main) :
    ConsInv (pairFired (putSession p ticket fun sess => { sess with st := .error, timer := false }) ticket) ∧
    (pairFired (putSession p ticket fun sess => { sess with st := .error, timer := false }) ticket).wait = p.wait ∧
    (pairFired (putSession p ticket fun sess => { sess with st := .error, timer := false }) ticket).nWait = p.nWait := by
  obtain ⟨_, _, first, second, base, _⟩ := stands
  obtain ⟨out, out_⟩ := lone_out p inv _ sess known base
  have pair_ := session_inv p pair _ (fun sess => { sess with st := .error, timer := false }) (fun _ => ⟨rfl, rfl⟩) out
  have known_ : (putSession p ticket fun sess => { sess with st := .error, timer := false }).sessions ticket =
      some { sess with st := .error, timer := false } := by
    rw [put_sessions, if_pos rfl, known]
    rfl
  obtain ⟨users, sessions, _, restart, wait⟩ := shutdown_eq _ pair_ _ _ known_
  obtain ⟨serve, nSess, nWait⟩ := shutdown_queues _ _ _ known_
  have empty (id : Nat) : ¬ holds { sess with st := .error, timer := false } id := by
    rintro (one | two)
    · cases first.symm.trans one
    · cases second.symm.trans two
  have base_ (child : Nat) : ({ sess with st := .error, timer := false } : PairSession).base ≠ some child := by
    rw [show ({ sess with st := .error, timer := false } : PairSession).base = none from base]
    rintro ⟨⟩
  generalize down : pairShutdown _ _ = q at *
  have users_ (id : Nat) : q.users id = p.users id := (users id).trans (if_neg (empty id))
  have wait_ (child : Nat) : q.wait _ = p.wait _ := (wait _).trans (if_neg (base_ child))
  have serve_ (child : Nat) : q.serve _ = p.serve _ := (serve _).trans (if_neg (base_ child))
  have gone : update q.sessions ticket none = update p.sessions ticket none := by
    rw [sessions, update_idem, putSession, update_idem]
  have keeps (one : List _) (differs : one ≠ ticket) : update q.sessions ticket none one = p.sessions one := by
    rw [gone]
    exact update_of_ne differs ..
  have old (one : List _) (differs : one ≠ ticket) : one ∈ q.restart.filter (· ≠ ticket) ↔ one ∈ p.restart := by
    rw [List.mem_filter, restart]
    split
    · simp [differs, putSession]
    · simp [differs, putSession]
  rw [pairFired, down]
  refine ⟨⟨fun one sess_ known_ => ?_, fun child one queued => ?_, fun child one queued => ?_, fun child => ?_, fun child => ?_, fun one queued => ?_⟩,
    funext wait_, nWait⟩
  · have known_ : update q.sessions _ none one = some _ := known_
    have differs : one ≠ ticket := by
      rintro rfl
      rw [update_self] at known_
      cases known_
    rw [keeps one differs] at known_
    obtain ⟨place, stands⟩ := inv.stands one _ known_
    refine ⟨place, stands_frame p _ one _ _ stands (old one differs) (fun child queued => ?_) (fun child queued => ?_)
      fun id _ user there calm => ⟨user, (users_ id).trans there, calm⟩⟩
    · exact (wait_ _).symm ▸ queued
    · exact (serve_ _).symm ▸ queued
  · rw [wait_] at queued
    obtain ⟨sess_, known_, rest⟩ := inv.waiting _ one queued
    exact ⟨sess_, (keeps one fun same => out _ (same ▸ queued)).trans known_, rest⟩
  · rw [serve_] at queued
    obtain ⟨sess_, known_, rest⟩ := inv.served _ one queued
    exact ⟨sess_, (keeps one fun same => out_ _ (same ▸ queued)).trans known_, rest⟩
  · exact (serve_ _).symm ▸ inv.once _
  · rw [serve_, nSess, if_neg (base_ _)]
    exact inv.nSess _
  · have differs : one ≠ ticket := by
      rintro rfl
      simp at queued
    show update q.sessions _ none one ≠ none
    rw [keeps one differs]
    exact inv.hashed one ((old one differs).mp queued)

end Session

end Codec.Fwd
