import Codec.Fwd.ConserveSteps

set_option autoImplicit false

namespace Codec.Fwd

open Codec.Lib

def Grows (p q : Pairing) : Prop := ∀ ticket, p.sessions ticket ≠ none → q.sessions ticket ≠ none

section Grows

variable (p : Pairing)

theorem grows_put (ticket : List UInt8) (change : PairSession → PairSession) : Grows p (putSession p ticket change) := by
  intro one known
  rw [put_sessions]
  split
  · rename_i same
    rw [← same]
    exact fun none_ => known (Option.map_eq_none_iff.mp none_)
  · exact known

theorem grows_destroy (id : Option Nat) : Grows p (pairUserDestroy p id) := by
  intro one known
  cases id with
  | none => exact known
  | some id =>
    cases there : p.users id with
    | none =>
      rw [pairUserDestroy, there]
      exact known
    | some user =>
      rw [destroy_eq p id user there]
      cases user.sess with
      | none => exact known
      | some ticket => exact grows_put p _ _ one known

theorem grows_shutdown (ticket : List UInt8) : Grows p (pairShutdown p ticket) := by
  intro one known
  rw [pairShutdown]
  cases p.sessions _ with
  | none => exact known
  | some sess =>
    have gone := grows_destroy _ sess.user2 one (grows_destroy p sess.user1 one known)
    dsimp only
    generalize pairUserDestroy _ _ = q at gone ⊢
    refine grows_put _ _ _ one ?_
    cases sess.base with
    | none => exact gone
    | some child => exact gone

theorem grows_error (id : Nat) : Grows p (pairUserError p id) := by
  rw [pairUserError]
  split
  · exact grows_shutdown p _
  · exact grows_destroy p _

theorem grows_update (ticket : List UInt8) (sess : PairSession) : ∀ one, p.sessions one ≠ none → Function.update p.sessions ticket (some sess) one ≠ none := by
  intro one known
  rw [Function.update_apply]
  split
  · exact nofun
  · exact known

theorem grows_bind (id : Nat) (ticket : List UInt8) (child : Nat) : Grows p (userAuthAndBindSession p id ticket child) := by
  intro one known
  rw [userAuthAndBindSession]
  cases p.sessions _ with
  | none => exact known
  | some sess =>
    dsimp only
    split
    · exact known
    · split
      · exact grows_update p _ _ one known
      · exact grows_update p _ _ one known

theorem grows_handle (child : Nat) (ticket : List UInt8) : Grows p (pairHandle p child ticket) := by
  intro one known
  cases there : p.sessions _ with
  | none =>
    rw [pairHandle, there]
    exact known
  | some sess =>
    rw [(handle_eq p _ _ sess there).2.1]
    exact grows_update p _ _ one known

theorem grows_callback (child : Nat) : Grows p (pairCallback p child) := by
  have turn (q : Pairing) (ticket : List _) (rest : List _) (grows : Grows p q) (_ : q.wait child = ticket :: rest) :
      Grows p _ :=
    fun one known => grows_handle { q with wait := Function.update q.wait child rest } child ticket one (grows one known)
  rw [pairCallback]
  split
  · exact fun _ known => known
  · exact (callback_run _ _ turn _ p (fun _ known => known) rfl).1

theorem grows_timeout (id : Nat) (user : PairUser) : Grows p (pairUserTimeout p id user) := by
  rw [pairUserTimeout]
  split
  · exact fun _ known => known
  · exact fun _ known => known
  · exact fun _ known => known
  · exact grows_error (putUser p id fun user => { user with st := .error, timer := false }) id
  · exact grows_error p id
  · exact fun _ known => known

end Grows

def Leaves (p : Pairing) (step : PairStep) : Prop :=
  ∀ ticket sess, p.sessions ticket = some sess → (pairStep p step).sessions ticket = none → sess.user1 = none ∧ sess.user2 = none

theorem leaves_step (p : Pairing) (kept : KeptAll p) (step : PairStep) : Leaves p step := by
  intro ticket sess known gone
  have does := pair_does p step
  generalize pairStep p step = after at does gone
  have stays (grows : Grows p _) : sess.user1 = none ∧ sess.user2 = none := (grows _ (by rw [known]; exact nofun) gone).elim
  have same : Grows p p := fun _ known => known
  cases does with
  | nothing => exact stays same
  | expires own idle sess_ there timer =>
    rcases timer_place p kept own _ there timer with main | ⟨st, _⟩
    · by_cases equal : ticket = own
      · rw [equal] at known
        rw [Option.some.inj (known.symm.trans there)]
        exact ⟨main.2.2.1, main.2.2.2.1⟩
      · rw [pairSessTimeout, main.1] at gone
        have gone : Function.update (pairShutdown _ own).sessions own none _ =
          none := gone
        rw [Function.update_of_ne equal] at gone
        refine (grows_shutdown _ own _ (grows_put p own _ _ ?_) gone).elim
        rw [known]
        exact nofun
    · refine stays ?_
      rw [pairSessTimeout]
      rcases st with est | clean
      · rw [est]
        dsimp only
        split
        · exact grows_shutdown p own
        · exact same
      · rw [clean]
        exact grows_shutdown p own
  | accepts id =>
    refine stays ?_
    rw [pairStep]
    split <;> exact same
  | opens own =>
    refine stays ?_
    rw [pairStep]
    split
    · exact grows_update p own _
    · exact same
  | binds id own child => exact stays (grows_bind (putUser p id fun user => { user with st := .auth, timer := true }) id own _)
  | refuses => exact stays same
  | times id user => exact stays (grows_timeout p id user)
  | fails id => exact stays (grows_error (putUser p id fun user => { user with st := .error, event := false }) id)
  | flushes id => exact stays (grows_error p id)
  | leaves id peer own => exact stays (grows_put _ own _)
  | downs id left own => exact stays (grows_shutdown p own)
  | restarts =>
    refine stays fun one there => ?_
    show (if one ∈ p.restart then _ else _) ≠ none
    split
    · exact fun none_ => there (Option.map_eq_none_iff.mp none_)
    · exact there
  | calls child => exact stays (grows_callback p _)

-- The main loop's queue is a ring of links. main_event_cb takes a session out of
-- it and leaves the session's own link as it was; behind notes whether another
-- session came after it.
structure PairRing where
  main : Pairing
  behind : List UInt8 → Option Bool

def ringInit : PairRing := ⟨pairInit, fun _ => none⟩

local instance lawfulBehind : LawfulBEq (List UInt8) := inferInstance

def ringStep (l : PairRing) (step : PairStep) : PairRing :=
  { main := pairStep l.main step
    behind := match step with
      | .restart => fun ticket => if ticket ∈ l.main.restart then some (l.main.restart.getLast? ≠ some ticket) else l.behind ticket
      | .ticketIn ticket => if l.main.sessions ticket = none then Function.update l.behind ticket none else l.behind
      | _ => l.behind }

def Relinked (l : PairRing) : PairStep → Prop
  | .register _ ticket _ => ∀ sess, l.main.sessions ticket = some sess → sess.st ≠ .est → ticket ∉ l.main.restart ∧
      ∀ behind, l.behind ticket = some behind → ∀ id, onlyUser sess id → l.main.restart = [] ∧ behind = false
  | _ => True

def Conserves (steps : List PairStep) : Prop :=
  Conserved (run ringStep ringInit steps).main ∧ AllSteps ringStep (fun l => Leaves l.main) ringInit steps

theorem kept_initial : KeptAll pairInit :=
  ⟨pair_inv_initial, ⟨nofun, nofun, nofun, fun _ => List.nodup_nil, fun _ => rfl, nofun⟩, fun _ => rfl⟩

theorem conserved (steps : List PairStep) (relinked : AllSteps ringStep Relinked ringInit steps) : Conserves steps := by
  have step (l : PairRing) (event : PairStep) (kept : KeptAll l.main) (allowed : Relinked l event) : KeptAll (ringStep l event).main := by
    refine kept_step _ kept _ ?_
    cases event with
    | register id ticket child => exact fun sess known st => (allowed sess known st).1
    | _ => trivial
  have kept := run_keeps _ _ _ ringInit _ kept_initial step relinked
  refine ⟨inv_conserved _ kept.pair kept.inv kept.nWait, ?_⟩
  exact all_steps_keeps _ _ _ _ _ _ kept_initial step
    (fun l event kept _ => leaves_step _ kept _) relinked

def ringSteps : List PairStep := [.ticketIn [7], .accept 1, .accept 2, .register 1 [7] 0, .register 2 [7] 0, .callback 0, .userError 1, .restart,
  .accept 1, .accept 2, .register 1 [7] 0, .register 2 [7] 0, .callback 0]

theorem conserved_sample : Conserves ringSteps := by
  refine conserved _ ⟨trivial, trivial, trivial, ?_, ?_, trivial, trivial, trivial, trivial, trivial, ?_, ?_, trivial, trivial⟩
  · intro sess known st
    exact ⟨List.not_mem_nil, nofun⟩
  · intro sess known st
    exact ⟨List.not_mem_nil, nofun⟩
  · intro sess known st
    exact ⟨List.not_mem_nil, fun behind same _ _ => ⟨rfl, (Option.some.inj same).symm⟩⟩
  · intro sess known st
    exact ⟨List.not_mem_nil, fun behind same _ _ => ⟨rfl, (Option.some.inj same).symm⟩⟩

-- A user comes to a session of the restart queue and waits; the session is
-- started again, its time passes, and it takes the user with it.
theorem waited_and_gone : ¬ Conserves [.ticketIn [7], .accept 1, .register 1 [7] 0, .userError 1, .accept 2, .register 2 [7] 0, .restart, .sessTimeout [7] true] := by
  rintro ⟨_, _, _, _, _, _, _, _, leaves, _⟩
  exact nomatch (leaves [7] _ rfl rfl).1

end Codec.Fwd
