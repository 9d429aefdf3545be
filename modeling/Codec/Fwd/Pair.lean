import Codec.Lib.Runs

set_option autoImplicit false

namespace Codec.Fwd

-- fwd_status, of users and of sessions.
inductive PairSt
  | accepted
  | auth
  | inited
  | watting
  | est
  | clean
  | error
deriving DecidableEq

-- fwd_user: its session by the ticket, its peer by the number, the ticket it
-- has presented, and whether its event and its timer are set.
structure PairUser where
  st : PairSt
  sess : Option (List UInt8)
  peer : Option Nat
  presented : Option (List UInt8)
  event : Bool
  timer : Bool
deriving DecidableEq

structure PairSession where
  st : PairSt
  user1 : Option Nat
  user2 : Option Nat
  base : Option Nat
  timer : Bool
deriving DecidableEq

-- The server: its users, the ticket hash, the sessions that wait for a restart,
-- the queues of the children and their counters. Entered notes the users of
-- each session that has come to ST_EST, as they were.
structure Pairing where
  users : Nat → Option PairUser
  sessions : List UInt8 → Option PairSession
  restart : List (List UInt8)
  wait : Nat → List (List UInt8)
  serve : Nat → List (List UInt8)
  nWait : Nat → Int
  nSess : Nat → Int
  entered : List (Option PairSt × Option PairSt)

def pairInit : Pairing := ⟨fun _ => none, fun _ => none, [], fun _ => [], fun _ => [], fun _ => 0, fun _ => 0, []⟩

local instance lawfulTicket : LawfulBEq (List UInt8) := inferInstance

section Pair

variable (p : Pairing)

def putUser (id : Nat) (change : PairUser → PairUser) : Pairing := { p with users := Function.update p.users id ((p.users id).map change) }

def putSession (ticket : List UInt8) (change : PairSession → PairSession) : Pairing :=
  { p with sessions := Function.update p.sessions ticket ((p.sessions ticket).map change) }

def pairStClean (id : Nat) : Pairing := putUser p id fun user => { user with st := .clean, event := true, timer := true }

-- fwd_user_detach, the session's part and the peer's, and fwd_user_destroy.
def pairLeave (id : Nat) : Option (List UInt8) → Pairing
  | none => p
  | some ticket => putSession p ticket fun sess => if sess.user1 = some id then { sess with user1 := none } else { sess with user2 := none }

def pairUnpeer : Option Nat → Pairing
  | none => p
  | some peer => putUser p peer fun other => { other with peer := none }

def pairUserDestroy : Option Nat → Pairing
  | none => p
  | some id => match p.users id with
      | none => p
      | some user =>
        let p := pairUnpeer (pairLeave p id user.sess) user.peer
        { p with users := Function.update p.users id none }

-- fwd_session_detach: a child counts a session of either queue down as one it
-- serves.
def pairDetach (ticket : List UInt8) : Option Nat → Pairing
  | none => p
  | some child =>
    { p with nSess := Function.update p.nSess child (p.nSess child - 1)
             wait := Function.update p.wait child ((p.wait child).erase ticket)
             serve := Function.update p.serve child ((p.serve child).erase ticket) }

-- fwd_session_shutdown; a session is in the restart queue once.
def pairShutdown (ticket : List UInt8) : Pairing := match p.sessions ticket with
  | none => p
  | some sess =>
    let p := pairUserDestroy (pairUserDestroy p sess.user1) sess.user2
    let p := pairDetach p ticket sess.base
    let p := putSession p ticket fun sess => { sess with user1 := none, user2 := none, base := none, timer := false }
    { p with restart := if ticket ∈ p.restart then p.restart else p.restart ++ [ticket] }

-- fwd_session_destroy of a session whose timer has fired.
def pairFired (ticket : List UInt8) : Pairing :=
  let p := pairShutdown p ticket
  { p with restart := p.restart.filter (· ≠ ticket), sessions := Function.update p.sessions ticket none }

-- user_event_error, and the end of user_event_clean.
def pairUserError (id : Nat) : Pairing := match (p.users id).bind PairUser.sess with
  | some ticket => pairShutdown p ticket
  | none => pairUserDestroy p (some id)

-- fwd_session_next_user.
def nextUser (sess : PairSession) (id : Nat) : Option Nat := if sess.user1 = some id then sess.user2 else sess.user1

def userAuthAndBindSession (id : Nat) (ticket : List UInt8) (child : Nat) : Pairing :=
  match p.sessions ticket with
  | none => pairStClean p id
  | some sess =>
    if sess.st = .est ∨ (sess.user1.isSome ∧ sess.user2.isSome) then pairStClean p id
    else
      let sess := if sess.user1 = none then { sess with user1 := some id, timer := false } else { sess with user2 := some id, timer := false }
      match nextUser sess id with
      | some peer =>
        let p := putUser p id fun user => { user with sess := some ticket, peer := some peer, presented := some ticket, event := false, timer := false }
        let p := putUser p peer fun other => { other with peer := some id, event := false, timer := false }
        { p with sessions := Function.update p.sessions ticket (some { sess with base := some child })
                 restart := p.restart.filter (· ≠ ticket)
                 wait := Function.update p.wait child (p.wait child ++ [ticket])
                 nWait := Function.update p.nWait child (p.nWait child + 1) }
      | none =>
        let p := putUser p id fun user => { user with sess := some ticket, peer := none, presented := some ticket, st := .watting, timer := true }
        { p with sessions := Function.update p.sessions ticket (some { sess with st := .watting }) }

def pairStEst : Option Nat → Pairing
  | none => p
  | some id => putUser p id fun user => { user with st := .est, event := true }

-- fwd_child_handle: the session and both its users come to ST_EST.
def pairHandle (child : Nat) (ticket : List UInt8) : Pairing := match p.sessions ticket with
  | none => p
  | some sess =>
    let stOf (id : Option Nat) : Option PairSt := id.bind fun id => (p.users id).map PairUser.st
    let p := { p with entered := (stOf sess.user1, stOf sess.user2) :: p.entered }
    let p := pairStEst (pairStEst p sess.user1) sess.user2
    let p := putSession p ticket fun sess => { sess with st := .est, base := some child, timer := true }
    { p with nSess := Function.update p.nSess child (p.nSess child + 1), serve := Function.update p.serve child (p.serve child ++ [ticket]) }

def pairCallback (child : Nat) : Pairing :=
  if p.wait child = [] then p
  else
    let p := (p.wait child).foldl (fun p ticket => pairHandle { p with wait := Function.update p.wait child (p.wait child).tail } child ticket) p
    { p with nWait := Function.update p.nWait child 0 }

-- err_out of user_event_est, when bytes are left for the peer.
def pairErrOut (id peer : Nat) (ticket : List UInt8) : Pairing :=
  let p := putUser p id fun user => { user with event := false }
  let p := pairStClean p peer
  putSession p ticket fun sess => { sess with st := .clean, timer := true }

end Pair

-- What happens to the server.
inductive PairStep
  | accept (id : Nat)
  | ticketIn (ticket : List UInt8)
  | register (id : Nat) (ticket : List UInt8) (child : Nat)
  | refuse (id : Nat)
  | userTimeout (id : Nat)
  | userError (id : Nat)
  | flushed (id : Nat)
  | estFails (id : Nat) (left : Bool)
  | sessTimeout (ticket : List UInt8) (idle : Bool)
  | restart
  | callback (child : Nat)

-- user_timeout_cb: a user that is refused or has waited comes to ST_CLEAN, one
-- that does not take its refusal to ST_ERROR.
def pairUserTimeout (p : Pairing) (id : Nat) (user : PairUser) : Pairing := match user.st with
  | .accepted => pairStClean p id
  | .auth => pairStClean p id
  | .watting => pairStClean p id
  | .clean => pairUserError (putUser p id fun user => { user with st := .error, timer := false }) id
  | .error => pairUserError p id
  | _ => putUser p id fun user => { user with timer := false }

-- sess_timeout_cb; idle is the test of sess_timeout_est.
def pairSessTimeout (p : Pairing) (ticket : List UInt8) (sess : PairSession) (idle : Bool) : Pairing := match sess.st with
  | .inited => pairFired (putSession p ticket fun sess => { sess with st := .error, timer := false }) ticket
  | .error => pairFired p ticket
  | .est => if idle then pairShutdown p ticket else p
  | .clean => pairShutdown p ticket
  | _ => putSession p ticket fun sess => { sess with timer := false }

-- The steps; a user or a session acts where its event or its timer is set.
def pairStep (p : Pairing) : PairStep → Pairing
  | .accept id => match p.users id with
      | none => { p with users := Function.update p.users id (some ⟨.accepted, none, none, none, true, true⟩) }
      | some _ => p
  | .ticketIn ticket => match p.sessions ticket with
      | none => { p with sessions := Function.update p.sessions ticket (some ⟨.inited, none, none, none, true⟩) }
      | some _ => p
  | .register id ticket child => match p.users id with
      | some user =>
        if (user.st = .accepted ∨ user.st = .auth) ∧ user.sess = none ∧ user.event
        then userAuthAndBindSession (putUser p id fun user => { user with st := .auth, timer := true }) id ticket child
        else p
      | none => p
  | .refuse id => match p.users id with
      | some user => if (user.st = .accepted ∨ user.st = .auth) ∧ user.event then pairStClean p id else p
      | none => p
  | .userTimeout id => match p.users id with
      | some user => if user.timer then pairUserTimeout p id user else p
      | none => p
  | .userError id => match p.users id with
      | some user => if user.event then pairUserError (putUser p id fun user => { user with st := .error, event := false }) id else p
      | none => p
  | .flushed id => match p.users id with
      | some user => if user.st = .clean ∧ user.event then pairUserError p id else p
      | none => p
  | .estFails id left => match p.users id with
      | some user => match user.st, user.peer, user.sess with
          | .est, some peer, some ticket => if user.event then if left then pairErrOut p id peer ticket else pairShutdown p ticket else p
          | .est, _, some ticket => if user.event then pairShutdown p ticket else p
          | _, _, _ => p
      | none => p
  | .sessTimeout ticket idle => match p.sessions ticket with
      | some sess => if sess.timer then pairSessTimeout p ticket sess idle else p
      | none => p
  | .restart =>
    { p with sessions := fun ticket => if ticket ∈ p.restart then (p.sessions ticket).map fun sess => { sess with st := .inited, timer := true }
               else p.sessions ticket
             restart := [] }
  | .callback child => pairCallback p child

-- What a step can do, with what has let it.
inductive PairDoes (p : Pairing) : PairStep → Pairing → Prop
  | nothing (step : PairStep) : PairDoes p step p
  | accepts (id : Nat) : PairDoes p (.accept id) (pairStep p (.accept id))
  | opens (ticket : List UInt8) : PairDoes p (.ticketIn ticket) (pairStep p (.ticketIn ticket))
  | binds (id : Nat) (ticket : List UInt8) (child : Nat) (user : PairUser) (there : p.users id = some user)
      (early : user.st = .accepted ∨ user.st = .auth) (lone : user.sess = none) : PairDoes p (.register id ticket child)
        (userAuthAndBindSession (putUser p id fun user => { user with st := .auth, timer := true }) id ticket child)
  | refuses (id : Nat) (user : PairUser) (there : p.users id = some user) (event : user.event = true) : PairDoes p (.refuse id) (pairStClean p id)
  | times (id : Nat) (user : PairUser) (there : p.users id = some user) (timer : user.timer = true) :
      PairDoes p (.userTimeout id) (pairUserTimeout p id user)
  | fails (id : Nat) (user : PairUser) (there : p.users id = some user) (event : user.event = true) : PairDoes p (.userError id)
      (pairUserError (putUser p id fun user => { user with st := .error, event := false }) id)
  | flushes (id : Nat) (user : PairUser) (there : p.users id = some user) (event : user.event = true) : PairDoes p (.flushed id) (pairUserError p id)
  | leaves (id peer : Nat) (ticket : List UInt8) (user : PairUser) (there : p.users id = some user) (event : user.event = true)
      (own : user.sess = some ticket) (st : user.st = .est) (has : user.peer = some peer) :
      PairDoes p (.estFails id true) (pairErrOut p id peer ticket)
  | downs (id : Nat) (left : Bool) (ticket : List UInt8) (user : PairUser) (there : p.users id = some user) (event : user.event = true)
      (own : user.sess = some ticket) : PairDoes p (.estFails id left) (pairShutdown p ticket)
  | expires (ticket : List UInt8) (idle : Bool) (sess : PairSession) (known : p.sessions ticket = some sess) (timer : sess.timer = true) :
      PairDoes p (.sessTimeout ticket idle) (pairSessTimeout p ticket sess idle)
  | restarts : PairDoes p .restart (pairStep p .restart)
  | calls (child : Nat) : PairDoes p (.callback child) (pairCallback p child)

theorem est_fails_does (p : Pairing) (id : Nat) (left : Bool) : PairDoes p (.estFails id left) (pairStep p (.estFails id left)) := by
  rw [pairStep]
  cases there : p.users id with
  | none => exact .nothing _
  | some user =>
    dsimp only
    split
    · rename_i peer ticket st has own
      split
      · rename_i event
        cases left with
        | true => exact .leaves id peer _ user there event own st has
        | false => exact .downs id _ _ user there event own
      · exact .nothing _
    · rename_i ticket _ own _
      split
      · rename_i event
        exact .downs id left _ user there event own
      · exact .nothing _
    · exact .nothing _

theorem pair_does (p : Pairing) (step : PairStep) : PairDoes p step (pairStep p step) := by
  have user_does (id : Nat) (one : PairStep) (acts : PairUser → Pairing)
      (does : ∀ user, p.users id = some user → PairDoes p one (acts user)) :
      PairDoes p one (match p.users id with | some user => acts user | none => p) := by
    cases there : p.users id with
    | none => exact .nothing _
    | some user => exact does user there
  have ready (one : PairStep) (c : Prop) [Decidable c] (after : Pairing) (does : c → PairDoes p one after) :
      PairDoes p one (if c then after else p) := by
    split
    · rename_i holds
      exact does holds
    · exact .nothing _
  cases step with
  | accept id => exact .accepts id
  | ticketIn ticket => exact .opens _
  | register id ticket child =>
    exact user_does id _ _ fun user there => ready _ _ _ fun free => .binds id _ _ user there free.1 free.2.1
  | refuse id => exact user_does id _ _ fun user there => ready _ _ _ fun free => .refuses id user there free.2
  | userTimeout id => exact user_does id _ _ fun user there => ready _ _ _ fun timer => .times id user there timer
  | userError id => exact user_does id _ _ fun user there => ready _ _ _ fun event => .fails id user there event
  | flushed id => exact user_does id _ _ fun user there => ready _ _ _ fun free => .flushes id user there free.2
  | estFails id left => exact est_fails_does p id left
  | sessTimeout ticket idle =>
    rw [pairStep]
    cases known : p.sessions _ with
    | none => exact .nothing _
    | some sess => exact ready _ _ _ fun timer => .expires _ idle sess known timer
  | restart => exact .restarts
  | callback child => exact .calls _

end Codec.Fwd
