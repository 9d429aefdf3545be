import Codec.Fwd.PairBind

set_option autoImplicit false

namespace Codec.Fwd

open Codec.Lib Function

variable {strict : Prop}

section Handle

variable (p : Pairing) (inv : PairInv strict p)

include inv

theorem handle_inv (child : Nat) (ticket : List UInt8) (ready : WaitsIn strict p child ticket) (out : ∀ child, ticket ∉ p.wait child) :
    PairInv strict (pairHandle p child ticket) := by
  obtain ⟨_, sess, one, two, known, first, second, _, _, ⟨user, there, fine, _⟩, ⟨user_, there_, fine_, _⟩⟩ := ready
  have entered : PairInv _ { p with entered := (some _, some _) :: p.entered } :=
    ⟨⟨inv.two, inv.peers, fun strict pair member => (List.mem_cons.mp member).elim (fun same => ⟨user.st, user_.st, same, fine strict, fine_ strict⟩)
        (inv.entered strict pair)⟩,
      inv.back, inv.slots, inv.waits, inv.once⟩
  have away (q : Pairing) (inv : PairInv strict q) (same : q.sessions = p.sessions) (wait : q.wait = p.wait) (id : Nat) (inside : holds sess id) :
      PairInv strict (putUser q id fun user => { user with st := .est, event := true }) := by
    refine touch_inv q inv id _ (fun _ => ⟨rfl, rfl, rfl⟩) fun user own child there belongs => ?_
    obtain ⟨user_, known_user, belongs_, _⟩ := inv.back _ sess id (by rw [same]; exact known) inside
    rw [← Option.some.inj (there.symm.trans known_user)] at belongs_
    rw [Option.some.inj (belongs.symm.trans belongs_), wait]
    exact out _
  have both := away _ (away _ entered rfl rfl one (.inl first)) rfl rfl two (.inr second)
  have served := session_inv _ both _ (fun sess => { sess with st := .est, base := some child, timer := true }) (fun _ => ⟨rfl, rfl⟩) out
  rw [pairHandle, known]
  dsimp only
  rw [first, second, Option.bind_some, Option.bind_some, there, there_]
  exact counters_inv _ served _ _ _

end Handle

theorem handle_wait (p : Pairing) (child : Nat) (ticket : List UInt8) : (pairHandle p child ticket).wait = p.wait := by
  have same (q : Pairing) (id : Option Nat) : (pairStEst q id).wait = q.wait := by cases id <;> rfl
  rw [pairHandle]
  cases p.sessions _ with
  | none => rfl
  | some sess => exact (same _ _).trans (same _ _)

theorem pop_inv (p : Pairing) (inv : PairInv strict p) (child : Nat) (ticket : List UInt8) (rest : List (List UInt8))
    (same : p.wait child = ticket :: rest) : PairInv strict (pairHandle { p with wait := Function.update p.wait child rest } child ticket) := by
  have ready := inv.waits _ _ (by rw [same]; exact List.mem_cons_self)
  have distinct := inv.once child
  rw [same] at distinct
  obtain ⟨new, rest_once⟩ := List.nodup_cons.mp distinct
  have fewer (other : Nat) (one : List _) (queued : one ∈ update p.wait child rest other) : one ∈ p.wait other := by
    rw [update_apply] at queued
    split at queued
    · rename_i equal
      rw [equal, same]
      exact List.mem_cons_of_mem _ queued
    · exact queued
  have popped : PairInv strict { p with wait := update p.wait child rest } := by
    refine ⟨{ inv with }, inv.back, inv.slots, fun other one queued => inv.waits _ one (fewer _ one queued), fun other => ?_⟩
    dsimp only
    rw [update_apply]
    split
    · exact rest_once
    · exact inv.once _
  refine handle_inv _ popped _ _ ready fun other (queued : ticket ∈ update p.wait _ rest _) => ?_
  by_cases equal : other = child
  · rw [equal, update_self] at queued
    exact new queued
  · obtain ⟨_, sess, _, _, known, _, _, _, base, _⟩ := ready
    obtain ⟨_, sess_, _, _, known_, _, _, _, base_, _⟩ := inv.waits _ _ (fewer _ _ queued)
    rw [← Option.some.inj (known.symm.trans known_), base] at base_
    exact equal (Option.some.inj base_).symm

theorem callback_run (keeps : Pairing → Prop) (child : Nat) (turn : ∀ p ticket rest, keeps p → p.wait child = ticket :: rest →
      keeps (pairHandle { p with wait := Function.update p.wait child rest } child ticket))
    (queue : List (List UInt8)) (p : Pairing) (start : keeps p) (same : p.wait child = queue) :
    keeps (queue.foldl (fun p ticket => pairHandle { p with wait := Function.update p.wait child (p.wait child).tail } child ticket) p) ∧
    (queue.foldl (fun p ticket => pairHandle { p with wait := Function.update p.wait child (p.wait child).tail } child ticket) p).wait =
      Function.update p.wait child [] := by
  induction queue generalizing p with
  | nil =>
    refine ⟨start, ?_⟩
    show p.wait = update _ child []
    rw [← same, update_eq_self]
  | cons ticket rest ih =>
    have tail : (p.wait child).tail = rest := by rw [same]; rfl
    have left := handle_wait { p with wait := update p.wait child rest } child ticket
    rw [List.foldl_cons, tail]
    obtain ⟨kept, wait⟩ := ih _ (turn p _ rest start same) (by rw [left]; exact update_self ..)
    refine ⟨kept, wait.trans ?_⟩
    rw [left]
    exact update_idem ..

theorem callback_inv (p : Pairing) (inv : PairInv strict p) (child : Nat) : PairInv strict (pairCallback p child) := by
  obtain ⟨kept, _⟩ := callback_run _ _ (fun p ticket rest inv same => pop_inv p inv _ _ rest same) _ p inv rfl
  rw [pairCallback]
  split
  · exact inv
  · exact counters_inv _ kept _ _ _

section Step

variable (p : Pairing) (inv : PairInv strict p)

include inv

theorem restart_inv : PairInv strict (pairStep p .restart) :=
  sessions_inv p inv _ _ [] (fun _ _ => ⟨rfl, rfl⟩) fun _ own there =>
    ⟨List.not_mem_nil, (inv.waits _ own there).1⟩

theorem accept_inv (id : Nat) : PairInv strict (pairStep p (.accept id)) := by
  rw [pairStep]
  cases there : p.users id with
  | some user => exact inv
  | none =>
    have new (other : Nat) (user : PairUser) (known : p.users other = some user) :
        update p.users id (some ⟨.accepted, none, none, none, true, true⟩) other = some user := by
      rw [update_of_ne]
      · exact known
      · rintro rfl
        cases there.symm.trans known
    have old (other : Nat) (user : PairUser)
        (known : update p.users id (some ⟨.accepted, none, none, none, true, true⟩) other = some user)
        (has : user.sess ≠ none ∨ user.peer ≠ none) : p.users other = some user := by
      rw [update_apply] at known
      split at known
      · rw [← Option.some.inj known] at has
        exact has.elim (absurd rfl) (absurd rfl)
      · exact known
    refine ⟨⟨fun other user ticket known belongs => ?_, fun other user peer known has => ?_, inv.entered⟩, fun ticket sess other known inside => ?_,
      inv.slots, fun child ticket queued => ?_, inv.once⟩
    · exact inv.two _ user _ (old _ user known (.inl (by rw [belongs]; rintro ⟨⟩))) belongs
    · obtain ⟨one, ticket, known_one, rest⟩ := inv.peers _ user peer (old _ user known (.inr (by rw [has]; rintro ⟨⟩))) has
      exact ⟨one, ticket, new peer one known_one, rest⟩
    · obtain ⟨user, known_user, rest⟩ := inv.back _ sess _ known inside
      exact ⟨user, new _ user known_user, rest⟩
    · obtain ⟨fresh, sess, one, two, known, first, second, timer, base, still, still_⟩ := inv.waits _ _ queued
      have same (other : Nat) (calm : Still strict p other) : Still strict { p with users := update p.users id (some ⟨.accepted, none, none, none, true, true⟩) } other := by
        obtain ⟨user, known_user, rest⟩ := calm
        exact ⟨user, new _ user known_user, rest⟩
      exact ⟨fresh, sess, one, two, known, first, second, timer, base, same one still, same two still_⟩

theorem ticket_in_inv (ticket : List UInt8) : PairInv strict (pairStep p (.ticketIn ticket)) := by
  rw [pairStep]
  cases there : p.sessions _ with
  | some sess => exact inv
  | none =>
    have new (own : List _) (sess : PairSession) (known : p.sessions own = some sess) :
        update p.sessions ticket (some ⟨.inited, none, none, none, true⟩) own = some sess := by
      rw [update_of_ne]
      · exact known
      · rintro rfl
        cases there.symm.trans known
    have old (own : List _) (sess : PairSession) (id : Nat)
        (known : update p.sessions ticket (some ⟨.inited, none, none, none, true⟩) own = some sess) (inside : holds sess id) :
        p.sessions own = some sess := by
      rw [update_apply] at known
      split at known
      · rw [← Option.some.inj known] at inside
        exact inside.elim (by rintro ⟨⟩) (by rintro ⟨⟩)
      · exact known
    refine ⟨⟨fun id user own known belongs => ?_, inv.peers, inv.entered⟩, fun own sess id known inside => ?_, fun own sess id known first => ?_,
      fun child own queued => ?_, inv.once⟩
    · obtain ⟨sess, known_sess, inside⟩ := inv.two id user own known belongs
      exact ⟨sess, new own sess known_sess, inside⟩
    · exact inv.back own sess id (old own sess id known inside) inside
    · exact inv.slots own sess id (old own sess id known (.inl first)) first
    · obtain ⟨fresh, sess, one, two, known, rest⟩ := inv.waits _ own queued
      exact ⟨fresh, sess, one, two, new own sess known, rest⟩

theorem user_timeout_inv (id : Nat) (user : PairUser) (there : p.users id = some user) (timer : user.timer = true) :
    PairInv strict (pairUserTimeout p id user) := by
  have out (ticket : List _) (child : Nat) (own : user.sess = some _) : ticket ∉ p.wait _ :=
    busy_out p inv id user there (.inr timer) _ own child
  have cleans : PairInv _ (pairStClean p id) := touch_busy p inv id user there (.inr timer) _ fun _ => ⟨rfl, rfl, rfl⟩
  rw [pairUserTimeout]
  split
  · exact cleans
  · exact cleans
  · exact cleans
  · have touched := touch_busy p inv id user there (.inr timer) (fun user => { user with st := .error, timer := false }) fun _ => ⟨rfl, rfl, rfl⟩
    exact user_error_inv _ touched id _ (put_there p id user there _) out
  · exact user_error_inv p inv id user there out
  · exact touch_busy p inv id user there (.inr timer) _ fun _ => ⟨rfl, rfl, rfl⟩

theorem sess_timeout_inv (ticket : List UInt8) (sess : PairSession) (known : p.sessions ticket = some sess) (timer : sess.timer = true) (idle : Bool) :
    PairInv strict (pairSessTimeout p ticket sess idle) := by
  have out (child : Nat) : ticket ∉ p.wait child := by
    intro queued
    obtain ⟨_, sess_, _, _, known_, _, _, still, _⟩ := inv.waits _ _ queued
    rw [← Option.some.inj (known.symm.trans known_), timer] at still
    exact nomatch still
  rw [pairSessTimeout]
  split
  · refine fired_inv _ (session_inv p inv _ (fun sess => { sess with st := .error, timer := false }) (fun _ => ⟨rfl, rfl⟩) out) _
      { sess with st := .error, timer := false } ?_ out
    rw [put_sessions, if_pos rfl, known]
    rfl
  · exact fired_inv p inv _ sess known out
  · split
    · exact shutdown_keeps p inv _ sess known out
    · exact inv
  · exact shutdown_keeps p inv _ sess known out
  · exact session_inv p inv _ _ (fun _ => ⟨rfl, rfl⟩) out

theorem est_fails_inv (id : Nat) (user : PairUser) (there : p.users id = some user) (event : user.event = true) (ticket : List UInt8)
    (own : user.sess = some ticket) : PairInv strict (pairShutdown p ticket) ∧ ∀ peer, user.peer = some peer → PairInv strict (pairErrOut p id peer ticket) := by
  have out (child : Nat) : ticket ∉ p.wait _ := busy_out p inv id user there (.inl event) _ own child
  obtain ⟨sess, known, _⟩ := inv.two id user _ there own
  refine ⟨shutdown_keeps p inv _ sess known out, fun peer has => ?_⟩
  obtain ⟨other, ticket_, known_other, _, own_, own_other, _⟩ := inv.peers id user peer there has
  obtain rfl := Option.some.inj (own.symm.trans own_)
  have first := touch_busy p inv id user there (.inl event) (fun user => { user with event := false }) fun _ => ⟨rfl, rfl, rfl⟩
  have second := touch_inv _ first peer (fun user => { user with st := .clean, event := true, timer := true }) (fun _ => ⟨rfl, rfl, rfl⟩)
    fun user_ one child there_ own_ => by
      have belongs : user_.sess = some ticket := by
        rw [put_users] at there_
        split at there_
        · obtain ⟨before, known_before, rfl⟩ := Option.map_eq_some_iff.mp there_
          rw [← Option.some.inj (there.symm.trans known_before)]
          exact own
        · rw [← Option.some.inj (known_other.symm.trans there_)]
          exact own_other
      rw [Option.some.inj (own_.symm.trans belongs)]
      exact out _
  exact session_inv _ second _ _ (fun _ => ⟨rfl, rfl⟩) out

def CalmBind (p : Pairing) : PairStep → Prop
  | .register _ ticket _ => ∀ sess, p.sessions ticket = some sess → ¬ (sess.st = .est ∨ (sess.user1.isSome ∧ sess.user2.isSome)) →
      ∀ other, holds sess other → ∀ user, p.users other = some user → ¬ refused user.st
  | _ => True

theorem pair_step_inv (step : PairStep) (calm : strict → CalmBind p step) : PairInv strict (pairStep p step) := by
  have does := pair_does p step
  generalize pairStep p step = after at does ⊢
  cases does with
  | nothing => exact inv
  | accepts id => exact accept_inv p inv id
  | opens ticket => exact ticket_in_inv p inv _
  | restarts => exact restart_inv p inv
  | calls child => exact callback_inv p inv _
  | binds id ticket child user there early lone =>
    have touched := touch_lone p inv id user there lone (fun user => { user with st := .auth, timer := true }) fun _ => ⟨rfl, rfl, rfl⟩
    refine auth_bind_inv _ touched id _ (put_there p id user there _) lone
      (by rintro (clean | error) <;> contradiction) _ _ fun sess known free other inside user_ there_ => ?_
    rw [put_users] at there_
    split at there_
    · obtain ⟨_, _, rfl⟩ := Option.map_eq_some_iff.mp there_
      rintro _ (clean | error) <;> contradiction
    · exact fun strict => calm strict sess known free _ inside _ there_
  | refuses id user there event => exact touch_busy p inv id user there (.inl event) _ fun _ => ⟨rfl, rfl, rfl⟩
  | times id user there timer => exact user_timeout_inv p inv id user there timer
  | fails id user there event =>
    have touched := touch_busy p inv id user there (.inl event) (fun user => { user with st := .error, event := false }) fun _ => ⟨rfl, rfl, rfl⟩
    exact user_error_inv _ touched id _ (put_there p id user there _)
      fun ticket child own => busy_out p inv id user there (.inl event) _ own _
  | flushes id user there event =>
    exact user_error_inv p inv id user there fun ticket child own => busy_out p inv id user there (.inl event) _ own _
  | leaves id peer ticket user there event own _ has => exact (est_fails_inv p inv id user there event _ own).2 peer has
  | downs id left ticket user there event own => exact (est_fails_inv p inv id user there event _ own).1
  | expires ticket idle sess known timer => exact sess_timeout_inv p inv _ sess known timer idle

end Step

theorem pair_inv_initial : PairInv strict pairInit := ⟨⟨nofun, nofun, nofun⟩, nofun, nofun, nofun, fun _ => List.nodup_nil⟩

theorem paired (steps : List PairStep) (calm : AllSteps pairStep CalmBind pairInit steps) : Paired (run pairStep pairInit steps) := by
  have inv := run_keeps _ _ (PairInv True) _ _ pair_inv_initial (fun p step inv allowed => pair_step_inv p inv step fun _ => allowed) calm
  exact ⟨inv.two, inv.peers, inv.entered trivial⟩

def pairSteps : List PairStep := [.ticketIn [7], .accept 1, .accept 2, .register 1 [7] 0, .register 2 [7] 0, .callback 0]

theorem paired_sample : Paired (run pairStep pairInit pairSteps) := by
  refine paired _ ⟨trivial, trivial, trivial, ?_, ?_, trivial, trivial⟩
  · intro sess known _ other inside
    obtain rfl := Option.some.inj known
    exact inside.elim nofun nofun
  · intro sess known _ other inside user there
    obtain rfl := Option.some.inj known
    rcases inside with first | second
    · obtain rfl := Option.some.inj first
      obtain rfl := Option.some.inj there
      decide
    · exact nomatch second

-- The first user has waited too long and is being refused when the second one
-- registers.
theorem refused_paired : ¬ Paired (run pairStep pairInit
    [.ticketIn [7], .accept 1, .accept 2, .register 1 [7] 0, .userTimeout 1, .register 2 [7] 0, .callback 0]) := by
  intro sound
  have came : (some _, some _) ∈ (run pairStep pairInit
    [.ticketIn [7], .accept 1, .accept 2, .register 1 [7] 0, .userTimeout 1, .register 2 [7] 0, .callback 0]).entered := List.mem_singleton.mpr rfl
  obtain ⟨one, _, same, fine, _⟩ := sound.entered _ came
  exact fine (.inl (Option.some.inj (congrArg Prod.fst same)).symm)

end Codec.Fwd
