import Codec.Fwd.Sock

set_option autoImplicit false

namespace Codec.Fwd

-- fwd_status, as far as a user or a session of a pair goes through it; down is
-- a session whose users were destroyed, and such a user.
inductive FwdStatus
  | accepted
  | auth
  | watting
  | est
  | clean
  | down
deriving DecidableEq

-- FWD_EVT_READ and FWD_EVT_WRITE of a registered fwd_event_fd.
structure Interest where
  read : Bool
  write : Bool
deriving DecidableEq

-- fwd_user. Pending is what the last epoll_wait reported and the loop has not
-- come to yet; got and put are all the bytes that recv and send moved.
structure FwdUser where
  st : FwdStatus
  buffer : FwdBuffer
  opened : Bool
  interest : Option Interest
  pending : Option Interest
  got : List UInt8
  put : List UInt8
  reason : Int

def fwdUserInit : FwdUser := ⟨.accepted, fwdBufferInit, true, some ⟨true, false⟩, none, [], [], 0⟩

section User

variable (user : FwdUser)

def fwdUserEventSet (flgs : Interest) : FwdUser := { user with interest := some flgs }

-- fwd_event_del takes back what epoll_wait reported of the user.
def fwdUserEventCancel : FwdUser := { user with interest := none, pending := none }

def userSockRead (recvs : List Recv) : SockRet × FwdUser :=
  if user.opened then
    let result := fwdSockRead recvs user.buffer []
    (result.1, { user with buffer := result.2.1, got := user.got ++ result.2.2, opened := result.1 ≠ .error })
  else (.error, user)

-- The first bytes of the buffer as the fields of a fwd_request.
def ntohs (bytes : List UInt8) : Nat := (bytes[0]?.getD 0).toNat * 256 + (bytes[1]?.getD 0).toNat
def requestLen (bytes : List UInt8) : Nat := ntohs bytes
def requestCmd (bytes : List UInt8) : Nat := ntohs (bytes.drop 4)

def requestVal (bytes : List UInt8) : Nat := ntohs (bytes.drop 8) * 65536 + ntohs (bytes.drop 10)

def fwdErr : Int := -1
def fwdErrTicketNotExist : Int := -3
def fwdErrWaitTimeout : Int := -6
def fwdErrHandleOvertime : Int := -7
def fwdErrInvalidArg : Int := -8
def fwdErrInvalidTag : Int := -9

def fwdContinue : Int := -15619397

-- What becomes of a ticket: it is missing, it is refused, or its session has the
-- user now.
inductive Verdict
  | invalid
  | refused
  | bound
deriving DecidableEq

def userStClean (reason : Int) : FwdUser := fwdUserEventSet { user with st := .clean, reason := reason } ⟨false, true⟩

-- user_event_auth. A request without a value is taken out of the buffer and
-- leaves the user where it is.
def userEventAuth (verdict : Verdict) : FwdUser :=
  let len := requestLen user.buffer.data
  if user.buffer.data.length < sizeofFwdRequest ∨ user.buffer.data.length < len then userStClean user (-fwdContinue)
  else if len < sizeofFwdRequest + 4 then { user with buffer := fwdBufferDrain user.buffer len }
  else if len - (sizeofFwdRequest + 4) < requestVal user.buffer.data then userStClean user (-fwdErr)
  else
    let user := { user with buffer := fwdBufferDrain user.buffer len }
    match verdict with
    | .invalid => userStClean user (-fwdErrInvalidArg)
    | .refused => userStClean user (-fwdErrTicketNotExist)
    | .bound => { user with st := .watting }

def userEventAccepted (recvs : List Recv) (verdict : Verdict) : FwdUser :=
  let (ret, user) := userSockRead user recvs
  match ret with
  | .again => user
  | .error => userStClean user fwdErr
  | .count bytes =>
    if bytes = 0 then userStClean user 0
    else if user.buffer.data.length < sizeofFwdRequest then user
    else if requestCmd user.buffer.data ≠ msgUserRegister then userStClean user (-fwdErrInvalidTag)
    else if user.buffer.data.length < requestLen user.buffer.data then user
    else userEventAuth { user with st := .auth } verdict

-- A read event of a user that no session has yet.
def userEventRegister (recvs : List Recv) (verdict : Verdict) : FwdUser := match user.st with
  | .accepted => userEventAccepted user recvs verdict
  | .auth => userEventAuth user verdict
  | _ => user

end User

-- A user from its first read event on until a session has it.
def userRegister (user : FwdUser) : List (List Recv) → Option FwdUser
  | [] => none
  | recvs :: rest =>
    let user := userEventRegister user recvs .bound
    match user.st with
    | .watting => some user
    | .clean => none
    | _ => userRegister user rest

def msgOk : List UInt8 := fwdRequest msgUserRegister 0

def userStEstablished (user peer : FwdUser) : FwdUser × FwdUser :=
  (fwdUserEventSet { user with st := .est } ⟨true, true⟩, { peer with buffer := fwdBufferPack peer.buffer msgUserRegister 0 })

section Established

variable (user peer : FwdUser)

def userEventRead (recvs : List Recv) : Bool × FwdUser × FwdUser :=
  let (ret, user) := userSockRead user recvs
  match ret with
  | .again => (true, user, peer)
  | .error => (false, user, peer)
  | .count bytes =>
    if bytes = 0 then (false, user, peer)
    else
      let user := if user.buffer.left = 0 then
          if peer.buffer.data ≠ [] then fwdUserEventSet user ⟨false, true⟩ else fwdUserEventCancel user
        else user
      let peer := if peer.buffer.left = 0 then fwdUserEventSet peer ⟨false, true⟩ else fwdUserEventSet peer ⟨true, true⟩
      (true, user, peer)

-- The socket's part of fwd_sock_send, and its last step on the buffer.
def userSockSend (data : List UInt8) (sends : List Send) : SockRet × FwdUser :=
  if user.opened then
    let result := fwdSockSend sends data []
    (result.1, { user with put := user.put ++ result.2, opened := result.1 ≠ .error })
  else (.error, user)

def sentFrom (buf : FwdBuffer) : SockRet → FwdBuffer
  | .count bytes => fwdBufferDrain buf bytes
  | _ => buf

def userEventWrite (sends : List Send) : Bool × FwdUser × FwdUser :=
  let (ret, user) := userSockSend user peer.buffer.data sends
  let buffer := sentFrom peer.buffer ret
  let peer := { peer with buffer := if buffer.left ≤ fwdBufferDefaultSize / 4 then fwdBufferRefresh buffer else buffer }
  match ret with
  | .count bytes =>
    if bytes = 0 then (false, user, peer)
    else
      let user := if peer.buffer.data = [] then
          if user.buffer.left = 0 then fwdUserEventCancel user else fwdUserEventSet user ⟨true, false⟩
        else user
      let peer := if user.buffer.data = [] then fwdUserEventSet peer ⟨true, false⟩ else fwdUserEventSet peer ⟨true, true⟩
      (true, user, peer)
  | _ => (false, user, peer)

-- The end of user_event_est after a failure: what the user sent still goes to
-- its peer, in the place of what the peer sent.
def userErrOut : FwdStatus × FwdUser × FwdUser :=
  if user.buffer.data ≠ [] then
    let peer := { fwdUserEventCancel peer with buffer := fwdBufferRefresh user.buffer, st := .clean, reason := 0 }
    (.clean, fwdUserEventCancel user, fwdUserEventSet peer ⟨false, true⟩)
  else (.down, user, peer)

def userEventEst (flg : Interest) (recvs : List Recv) (sends : List Send) : FwdStatus × FwdUser × FwdUser :=
  let (ok, user, peer) := if flg.read then userEventRead user peer recvs else (true, user, peer)
  if !ok then userErrOut user peer
  else
    let (ok, user, peer) := if flg.write then userEventWrite user peer sends else (true, user, peer)
    if !ok then userErrOut user peer else (.est, user, peer)

-- The first step of user_event_clean: the response with the reason.
def userPackReason : FwdUser :=
  if user.reason > 0 then { user with buffer := fwdBufferPack user.buffer msgUserRegister user.reason.toNat, reason := 0 } else user

def userEventClean (flg : Interest) (sends : List Send) : FwdStatus × FwdUser :=
  let user := userPackReason user
  if flg.write then
    let (ret, user) := userSockSend user user.buffer.data sends
    let user := { user with buffer := fwdBufferRefresh (sentFrom user.buffer ret) }
    match ret with
    | .count bytes => if bytes = 0 then (.down, user) else if user.buffer.data ≠ [] then (.clean, user) else (.down, user)
    | _ => (.down, user)
  else (.down, user)

end Established

-- fwd_session with its two users, user1 under true.
structure FwdSession where
  st : FwdStatus
  users : Bool → FwdUser

def FwdSession.set (_ : FwdSession) (side : Bool) (st : FwdStatus) (user peer : FwdUser) : FwdSession :=
  ⟨st, fun other => if other = side then user else peer⟩

-- fwd_session_st_esablished; the users left the main loop's epoll before.
def fwdSessionStEstablished (user1 user2 : FwdUser) : FwdSession :=
  let (user1, user2) := userStEstablished (fwdUserEventCancel user1) (fwdUserEventCancel user2)
  let (user2, user1) := userStEstablished user2 user1
  ⟨.est, fun side => if side then user1 else user2⟩

-- What happens to a session: epoll_wait reports events, of registered users
-- and within their interest; the loop comes to one of them; a user's socket
-- fails or hangs up; a timer runs out.
inductive FwdStep
  | wait (flags : Bool → Option Interest)
  | handle (side : Bool) (recvs : List Recv) (sends : List Send)
  | hangup (side : Bool)
  | timeout

def within (interest flags : Option Interest) : Option Interest :=
  match interest, flags with
  | some interest, some flags =>
    let both : Interest := ⟨interest.read && flags.read, interest.write && flags.write⟩
    if both.read || both.write then some both else none
  | _, _ => none

section Step

variable (sess : FwdSession)

def fwdSessionShutdown : FwdSession := ⟨.down, fun side => fwdUserEventCancel (sess.users side)⟩

def fwdWait (flags : Bool → Option Interest) : FwdSession :=
  if (sess.users true).pending = none ∧ (sess.users false).pending = none then
    ⟨sess.st, fun side => { sess.users side with pending := within (sess.users side).interest (flags side) }⟩
  else sess

def fwdEventTaken (user : FwdUser) : FwdUser := { user with pending := none }

def outcome (side : Bool) (result : FwdStatus × FwdUser × FwdUser) : FwdSession :=
  let next := sess.set side result.1 result.2.1 result.2.2
  if result.1 = .down then fwdSessionShutdown next else next

def userEventCb (side : Bool) (flg : Interest) (recvs : List Recv) (sends : List Send) : FwdSession :=
  let user := fwdEventTaken (sess.users side)
  let peer := sess.users !side
  match user.st with
  | .est => outcome sess side (userEventEst user peer flg recvs sends)
  | .clean =>
    let (st, user) := userEventClean user flg sends
    outcome sess side (st, user, peer)
  | _ => sess

def fwdStep : FwdStep → FwdSession
  | .wait flags => if sess.st = .down then sess else fwdWait sess flags
  | .handle side recvs sends => match (sess.users side).pending with
      | some flg => userEventCb sess side flg recvs sends
      | none => sess
  | .hangup side => if (sess.users side).interest = none then sess else fwdSessionShutdown sess
  | .timeout => fwdSessionShutdown sess

end Step

section Read

variable (user peer : FwdUser) (recvs : List Recv)

theorem user_read_data : ∃ bytes, (userSockRead user recvs).2.got = user.got ++ bytes ∧
    (userSockRead user recvs).2.buffer.data = user.buffer.data ++ bytes ∧
    (userSockRead user recvs).2.buffer.trash = user.buffer.trash ∧ ReadRet bytes (userSockRead user recvs).1 := by
  rw [userSockRead]
  split
  · obtain ⟨bytes, took, held, trash⟩ := sock_read_data _ _ []
    have ret := sock_read_ret recvs user.buffer []
    rw [took] at ret
    rw [List.nil_append] at took
    exact ⟨bytes, congrArg _ took, held, trash, ret⟩
  · exact ⟨[], (List.append_nil _).symm, (List.append_nil _).symm, rfl, trivial⟩

theorem user_read_same : (userSockRead user recvs).2.st = user.st ∧ (userSockRead user recvs).2.interest = user.interest ∧
    (userSockRead user recvs).2.pending = user.pending ∧ (userSockRead user recvs).2.put = user.put := by
  rw [userSockRead]
  split <;> exact ⟨rfl, rfl, rfl, rfl⟩

theorem user_read_opened (opened : user.opened = true) (fine : (userSockRead user recvs).1 ≠ .error) :
    (userSockRead user recvs).2.opened = true := by
  rw [userSockRead, if_pos opened] at fine ⊢
  exact decide_eq_true fine

end Read

section Send

variable (user : FwdUser) (data : List UInt8) (sends : List Send)

theorem user_send_data : ∃ n, n ≤ data.length ∧ (userSockSend user data sends).2.put = user.put ++ data.take n ∧
    ∀ count, (userSockSend user data sends).1 = .count count → count = n := by
  rw [userSockSend]
  split
  · obtain ⟨n, sent, bound, counted⟩ := sock_send_sent _ data []
    rw [List.nil_append] at sent
    exact ⟨n, bound, congrArg _ sent, fun count ret => (counted _ ret).trans (Nat.zero_add n)⟩
  · exact ⟨0, Nat.zero_le _, (List.append_nil _).symm, nofun⟩

theorem user_send_same : (userSockSend user data sends).2.st = user.st ∧ (userSockSend user data sends).2.interest = user.interest ∧
    (userSockSend user data sends).2.pending = user.pending ∧ (userSockSend user data sends).2.buffer = user.buffer ∧
    (userSockSend user data sends).2.got = user.got := by
  rw [userSockSend]
  split <;> exact ⟨rfl, rfl, rfl, rfl, rfl⟩

theorem user_send_opened (fine : (userSockSend user data sends).1 ≠ .error) : (userSockSend user data sends).2.opened = true := by
  rw [userSockSend] at fine ⊢
  split at fine
  · rename_i opened
    rw [if_pos opened]
    exact decide_eq_true fine
  · exact absurd rfl fine

end Send

theorem pack_reason_same (user : FwdUser) : (userPackReason user).st = user.st ∧ (userPackReason user).put = user.put ∧
    (userPackReason user).got = user.got ∧ (userPackReason user).reason ≤ 0 := by
  rw [userPackReason]
  split
  · exact ⟨rfl, rfl, rfl, Int.le_refl 0⟩
  · rename_i none_
    exact ⟨rfl, rfl, rfl, Int.not_lt.mp none_⟩

theorem clean_ends (user : FwdUser) (flg : Interest) (sends : List Send) (clean : user.st = .clean) :
    ((userEventClean user flg sends).1 = .clean ∨ (userEventClean user flg sends).1 = .down) ∧ (userEventClean user flg sends).2.st = .clean := by
  have packed := (pack_reason_same user).1.trans clean
  rw [userEventClean]
  generalize userPackReason user = user at packed ⊢
  have same := (user_send_same user user.buffer.data sends).1
  dsimp only
  split
  · split
    · split
      · exact ⟨.inr rfl, same.trans packed⟩
      · split
        · exact ⟨.inl rfl, same.trans packed⟩
        · exact ⟨.inr rfl, same.trans packed⟩
    · exact ⟨.inr rfl, same.trans packed⟩
  · exact ⟨.inr rfl, packed⟩

theorem clean_got (user : FwdUser) (flg : Interest) (sends : List Send) : (userEventClean user flg sends).2.got = user.got := by
  have packed := (pack_reason_same user).2.2.1
  rw [userEventClean]
  generalize userPackReason user = user_ at packed ⊢
  have same := (user_send_same user_ user_.buffer.data sends).2.2.2.2
  dsimp only
  split
  · split
    · split
      · exact same.trans packed
      · split <;> exact same.trans packed
    · exact same.trans packed
  · exact packed

theorem clean_puts (user : FwdUser) (flg : Interest) (sends : List Send) : ∃ n,
    (userEventClean user flg sends).2.put = user.put ++ (userPackReason user).buffer.data.take n ∧
    (userEventClean user flg sends).2.reason ≤ 0 ∧ ((userEventClean user flg sends).1 = .clean →
      (userEventClean user flg sends).2.buffer.data = (userPackReason user).buffer.data.drop n) := by
  obtain ⟨_, put, _, reason⟩ := pack_reason_same user
  rw [userEventClean]
  generalize userPackReason user = packed at put reason ⊢
  obtain ⟨n, _, sent, counted⟩ := user_send_data _ _ _
  have same : (userSockSend packed packed.buffer.data sends).2.reason = packed.reason ∧
      (userSockSend packed packed.buffer.data sends).2.buffer = packed.buffer := by
    rw [userSockSend]
    split <;> exact ⟨rfl, rfl⟩
  rw [put] at sent
  generalize userSockSend _ _ _ = result at sent counted same ⊢
  obtain ⟨ret, user⟩ := result
  have last : user.reason ≤ 0 := by
    rw [same.1]
    exact reason
  split
  · refine ⟨n, ?_⟩
    cases ret with
    | again => exact ⟨sent, last, nofun⟩
    | error => exact ⟨sent, last, nofun⟩
    | count bytes =>
      have took : (sentFrom user.buffer (.count bytes)).data = packed.buffer.data.drop n := by
        rw [sentFrom, drain_data, same.2, counted _ rfl]
      dsimp only
      split
      · exact ⟨sent, last, nofun⟩
      · split
        · exact ⟨sent, last, fun _ => took⟩
        · exact ⟨sent, last, nofun⟩
  · exact ⟨0, put.trans (List.append_nil _).symm, reason, nofun⟩

end Codec.Fwd
