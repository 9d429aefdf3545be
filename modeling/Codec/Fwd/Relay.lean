import Codec.Fwd.Flow

set_option autoImplicit false

namespace Codec.Fwd

open Codec.Lib List

theorem healthy_stays (sess : FwdSession) (inv : FlowInv sess) (est : sess.st = .est) (side : Bool) (recvs : List Recv) (sends : List Send)
    (healthy : Healthy recvs sends) : (fwdStep sess (.handle side recvs sends)).st = .est := by
  rw [fwdStep]
  cases reported : (sess.users side).pending with
  | none => exact est
  | some flg =>
    have for_ : PendingOk _ _ _ := fun flags held =>
      (inv.est est side).pending _ (reported.trans held)
    have alive := est_alive (pair_ok sess inv est side) flg _ _ for_ healthy
    have up : (userEventEst (fwdEventTaken (sess.users side)) (sess.users !side) flg recvs sends).1 ≠ .down := by
      rw [alive]
      rintro ⟨⟩
    dsimp only
    rw [event_est sess side flg _ _ (inv.est est side).st, outcome_up sess side _ up]
    exact alive

section Control

variable (reads1 reads2 : List (List Recv)) (user1 user2 : FwdUser)
  (registered1 : userRegister fwdUserInit reads1 = some user1) (registered2 : userRegister fwdUserInit reads2 = some user2)

include registered1 registered2

theorem flow_control_iff : FlowControlled (fwdSessionStEstablished user1 user2) ↔ Fit user1 ∧ Fit user2 := by
  constructor
  · exact fun controlled => fit_of_flow _ _ (controlled [] rfl).1
  · rintro ⟨fit1, fit2⟩ steps est
    have opened1 := (user_registered _ _ init_heard (.inl rfl) _ registered1).opened
    have opened2 := (user_registered _ _ init_heard (.inl rfl) _ registered2).opened
    have inv := run_inv _ (start_inv _ _ opened1 opened2 fit1 fit2) steps
    exact ⟨fun side => (inv.est est side).flow, fun side => (inv.est est side).pending, healthy_stays _ inv est⟩

end Control

def registerRequest : List UInt8 := [0, 12, 0, 1, 0x15, 4, 0, 0, 0, 0, 0, 0]

def registerReads (behind : List UInt8) : List (List Recv) := [[.data 0 (registerRequest.tail ++ behind)]]

section Behind

variable (behind : List UInt8) (fits : 12 + behind.length ≤ fwdBufferDefaultSize)

include fits

theorem read_behind : (userSockRead fwdUserInit [.data 0 (registerRequest.tail ++ behind)]).1 = .count (12 + behind.length) ∧
    (userSockRead fwdUserInit [.data 0 (registerRequest.tail ++ behind)]).2.buffer.data = registerRequest ++ behind ∧
    (userSockRead fwdUserInit [.data 0 (registerRequest.tail ++ behind)]).2.buffer.trash = 0 := by
  have long : (registerRequest ++ behind).length = 12 + behind.length := length_append
  have whole : (registerRequest ++ behind).take fwdBufferInit.left = registerRequest ++ behind := by
    refine take_of_length_le ?_
    rw [long]
    exact fits
  have read : fwdSockRead [.data 0 (registerRequest.tail ++ behind)] fwdBufferInit [] =
      (.count (12 + behind.length), fwdBufferInit.put (registerRequest ++ behind), registerRequest ++ behind) := by
    have rest := sock_read_done (fwdBufferInit.put (registerRequest ++ behind)) (registerRequest ++ behind) (cons_ne_nil _ _)
    rw [long, ← whole] at rest
    rw [sock_read_data_cons 0 _ [] fwdBufferInit [] nofun]
    rw [whole] at rest
    refine Eq.trans ?_ rest
    refine congrArg _ whole
  have opened : userSockRead fwdUserInit _ =
      ((fwdSockRead _ fwdBufferInit []).1,
        { fwdUserInit with buffer := (fwdSockRead [.data 0 (registerRequest.tail ++ behind)] fwdBufferInit []).2.1,
                           got := (fwdSockRead [.data 0 (registerRequest.tail ++ behind)] fwdBufferInit []).2.2,
                           opened := (fwdSockRead [.data 0 (registerRequest.tail ++ behind)] fwdBufferInit []).1 ≠ .error }) := rfl
  rw [opened, read]
  refine ⟨rfl, ?_, rfl⟩
  exact (nil_append _).trans whole

theorem register_behind : ∃ user, userRegister fwdUserInit (registerReads behind) = some user ∧
    user.buffer.data = behind ∧ user.buffer.trash = 12 := by
  obtain ⟨ret, data, trash⟩ := read_behind _ fits
  have event : userEventRegister fwdUserInit [.data 0 (registerRequest.tail ++ behind)] .bound =
      userEventAccepted fwdUserInit [.data 0 (registerRequest.tail ++ behind)] .bound := rfl
  rw [registerReads, userRegister, event, userEventAccepted]
  generalize userSockRead _ _ = result at ret data trash ⊢
  obtain ⟨status, user⟩ := result
  dsimp only at ret data trash
  have len : requestLen user.buffer.data = 12 := by simp [data, requestLen, ntohs, registerRequest]
  have cmd : requestCmd user.buffer.data = msgUserRegister := by simp [data, requestCmd, ntohs, registerRequest, msgUserRegister]
  have val : requestVal user.buffer.data = 0 := by simp [data, requestVal, ntohs, registerRequest]
  have long : user.buffer.data.length = 12 + behind.length := by rw [data]; exact length_append
  have header : ¬ user.buffer.data.length < sizeofFwdRequest := by
    rw [long, sizeofFwdRequest]
    omega
  have whole : ¬ user.buffer.data.length < requestLen user.buffer.data := by
    rw [long, len]
    omega
  have auth : userEventAuth { user with st := .auth } .bound = { user with st := .watting, buffer := fwdBufferDrain user.buffer 12 } := by
    rw [userEventAuth]
    rw [if_neg (not_or.mpr ⟨header, whole⟩), len, val]
    rfl
  rw [ret]
  dsimp only
  rw [if_neg (by omega), if_neg header, if_neg (fun other => other cmd), if_neg whole, auth]
  refine ⟨_, rfl, ?_, ?_⟩
  · rw [drain_data, data]
    rfl
  · show user.buffer.trash + min 12 _ = 12
    rw [trash, long]
    omega

end Behind

theorem flow_control_registered : ∃ user1 user2, userRegister fwdUserInit (registerReads []) = some user1 ∧
    userRegister fwdUserInit (registerReads [1, 2]) = some user2 ∧
    (FlowControlled (fwdSessionStEstablished user1 user2) ↔ Fit user1 ∧ Fit user2) := by
  obtain ⟨user1, registered1, _⟩ := register_behind [] (by decide)
  obtain ⟨user2, registered2, _⟩ := register_behind [1, 2] (by decide)
  exact ⟨user1, user2, registered1, registered2, flow_control_iff _ _ _ _ registered1 registered2⟩

theorem full_buffer_reads : ¬ ∀ reads1 reads2 user1 user2, userRegister fwdUserInit reads1 = some user1 →
    userRegister fwdUserInit reads2 = some user2 → FlowControlled (fwdSessionStEstablished user1 user2) := by
  intro controlled
  have fits : 12 + (replicate 4084 (0 : UInt8)).length ≤ fwdBufferDefaultSize := by
    rw [length_replicate]
    decide
  obtain ⟨user1, registered1, data, trash⟩ := register_behind _ fits
  obtain ⟨user2, registered2, _⟩ := register_behind [] (by decide)
  obtain ⟨fit, _⟩ := fit_of_flow _ _ (controlled _ _ _ _ registered1 registered2 [] rfl).1
  have left : user1.buffer.left = 0 := by
    rw [FwdBuffer.left, data, trash, length_replicate]
    rfl
  rcases fit with room | ⟨_, room⟩
  · omega
  · omega

structure Took (user peer user' peer' : FwdUser) : Prop where
  bytes : ∃ bytes, user'.got = user.got ++ bytes ∧ user'.buffer.data = user.buffer.data ++ bytes
  put : user'.put = user.put
  st : user'.st = user.st
  peer_data : peer'.buffer.data = peer.buffer.data
  peer_got : peer'.got = peer.got
  peer_put : peer'.put = peer.put
  peer_st : peer'.st = peer.st
  peer_opened : peer'.opened = peer.opened

structure Gave (ok : Bool) (user peer user' peer' : FwdUser) : Prop where
  bytes : ∃ n, user'.put = user.put ++ peer.buffer.data.take n ∧ (ok = true → peer'.buffer.data = peer.buffer.data.drop n)
  got : user'.got = user.got
  st : user'.st = user.st
  data : user'.buffer.data = user.buffer.data
  peer_got : peer'.got = peer.got
  peer_put : peer'.put = peer.put
  peer_st : peer'.st = peer.st
  peer_opened : peer'.opened = peer.opened

structure Armed (user user' : FwdUser) : Prop where
  buffer : user'.buffer = user.buffer
  got : user'.got = user.got
  put : user'.put = user.put
  st : user'.st = user.st
  opened : user'.opened = user.opened

section Event

variable (user peer : FwdUser)

theorem armed_same : Armed user user := ⟨rfl, rfl, rfl, rfl, rfl⟩

theorem armed_set (flgs : Interest) : Armed user (fwdUserEventSet user flgs) := ⟨rfl, rfl, rfl, rfl, rfl⟩

theorem armed_cancel : Armed user (fwdUserEventCancel user) := ⟨rfl, rfl, rfl, rfl, rfl⟩

theorem armed_if (c : Prop) [Decidable c] (one other : FwdUser) (first : Armed user one) (second : Armed user other) :
    Armed user (if c then one else other) := by
  split
  · exact first
  · exact second

theorem took_nothing : Took user peer user peer :=
  ⟨⟨[], (append_nil _).symm, (append_nil _).symm⟩, rfl, rfl, rfl, rfl, rfl, rfl, rfl⟩

theorem gave_nothing : Gave true user peer user peer :=
  ⟨⟨0, (append_nil _).symm, fun _ => rfl⟩, rfl, rfl, rfl, rfl, rfl, rfl, rfl⟩

theorem read_took (recvs : List Recv) : Took user peer (userEventRead user peer recvs).2.1 (userEventRead user peer recvs).2.2 := by
  obtain ⟨bytes, got, data, _⟩ := user_read_data user _
  obtain ⟨st, _, _, put⟩ := user_read_same user _
  rw [userEventRead]
  generalize userSockRead user _ = result at got data st put ⊢
  obtain ⟨ret, read⟩ := result
  have plain : Took user peer read peer := ⟨⟨bytes, got, data⟩, put, st, rfl, rfl, rfl, rfl, rfl⟩
  cases ret with
  | again => exact plain
  | error => exact plain
  | count number =>
    dsimp only
    split
    · exact plain
    · have own := armed_if read (read.buffer.left = 0) _ _ (armed_if read (peer.buffer.data ≠ []) _ _ (armed_set read ⟨false, true⟩) (armed_cancel read))
        (armed_same read)
      have other := armed_if peer (peer.buffer.left = 0) _ _ (armed_set peer ⟨false, true⟩) (armed_set peer ⟨true, true⟩)
      exact ⟨⟨bytes, own.got.trans got, (congrArg _ own.buffer).trans data⟩, own.put.trans put, own.st.trans st,
        congrArg _ other.buffer, other.got, other.put, other.st, other.opened⟩

theorem write_gave (sends : List Send) :
    Gave (userEventWrite user peer sends).1 user peer (userEventWrite user peer sends).2.1 (userEventWrite user peer sends).2.2 := by
  obtain ⟨n, _, put, counted⟩ := user_send_data user _ _
  obtain ⟨st, _, _, buffer, got⟩ := user_send_same user _ _
  rw [userEventWrite]
  generalize userSockSend user _ _ = result at put counted st buffer got ⊢
  obtain ⟨ret, sent⟩ := result
  have held := congrArg FwdBuffer.data buffer
  have refreshed (c : Prop) [Decidable c] (buf : FwdBuffer) : (if c then fwdBufferRefresh buf else buf).data = buf.data := by
    split <;> rfl
  have failed (peer' : FwdUser) (same : peer'.got = peer.got ∧ peer'.put = peer.put ∧ peer'.st = peer.st ∧ peer'.opened = peer.opened) :
      Gave false user peer sent _ := ⟨⟨n, put, (by rintro ⟨⟩)⟩, got, st, held, same.1, same.2.1, same.2.2.1, same.2.2.2⟩
  cases ret with
  | again => exact failed _ ⟨rfl, rfl, rfl, rfl⟩
  | error => exact failed _ ⟨rfl, rfl, rfl, rfl⟩
  | count bytes =>
    have rest : (if (sentFrom peer.buffer (.count bytes)).left ≤ fwdBufferDefaultSize / 4 then fwdBufferRefresh (sentFrom peer.buffer (.count bytes))
        else sentFrom peer.buffer (.count bytes)).data = peer.buffer.data.drop n := by
      rw [refreshed, sentFrom, drain_data, counted _ rfl]
    dsimp only
    split
    · exact failed _ ⟨rfl, rfl, rfl, rfl⟩
    · generalize (if (sentFrom _ _).left ≤ fwdBufferDefaultSize / 4 then fwdBufferRefresh _
        else sentFrom _ _) = drained at rest ⊢
      have own := armed_if sent (drained.data = []) _ _ (armed_if sent (sent.buffer.left = 0) _ _ (armed_cancel sent) (armed_set sent ⟨true, false⟩))
        (armed_same sent)
      generalize (if drained.data = [] then if sent.buffer.left = 0 then fwdUserEventCancel sent else fwdUserEventSet sent _
        else sent) = last at own ⊢
      have other := armed_if { peer with buffer := drained } (last.buffer.data = []) _ _ (armed_set _ ⟨true, false⟩) (armed_set _ ⟨true, true⟩)
      exact ⟨⟨n, own.put.trans put, fun _ => (congrArg _ other.buffer).trans rest⟩, own.got.trans got, own.st.trans st,
        (congrArg _ own.buffer).trans held, other.got, other.put, other.st, other.opened⟩

theorem est_cases (flg : Interest) (recvs : List Recv) (sends : List Send) : ∃ user1 peer1, Took user peer user1 peer1 ∧
    (userEventEst user peer flg recvs sends = userErrOut user1 peer1 ∨ ∃ ok user2 peer2, Gave ok user1 peer1 user2 peer2 ∧
      ((ok = true ∧ userEventEst user peer flg recvs sends = (.est, user2, peer2)) ∨
        userEventEst user peer flg recvs sends = userErrOut user2 peer2)) := by
  have took : Took user peer (if flg.read then userEventRead user peer recvs else (true, user, peer)).2.1
      (if flg.read then userEventRead user peer recvs else (true, user, peer)).2.2 := by
    split
    · exact read_took user peer _
    · exact took_nothing user peer
  rw [userEventEst]
  generalize (if flg.read then userEventRead user peer _ else (true, user, peer)) = first at took ⊢
  obtain ⟨done, user1, peer1⟩ := first
  refine ⟨user1, peer1, took, ?_⟩
  cases done with
  | false => exact .inl rfl
  | true =>
    have gave : Gave (if flg.write then userEventWrite user1 peer1 sends else (true, user1, peer1)).1 user1 peer1
        (if flg.write then userEventWrite user1 peer1 sends else (true, user1, peer1)).2.1
        (if flg.write then userEventWrite user1 peer1 sends else (true, user1, peer1)).2.2 := by
      split
      · exact write_gave _ _ _
      · exact gave_nothing _ _
    dsimp only
    generalize (if flg.write then userEventWrite _ _ _ else (true, user1, peer1)) = second at gave ⊢
    obtain ⟨ok, user2, peer2⟩ := second
    refine .inr ⟨ok, user2, peer2, gave, ?_⟩
    cases ok with
    | false => exact .inr rfl
    | true => exact .inl ⟨rfl, rfl⟩

theorem err_out_kept : (userErrOut user peer).2.1.put = user.put ∧ (userErrOut user peer).2.1.got = user.got ∧
    (userErrOut user peer).2.2.put = peer.put ∧ (userErrOut user peer).2.2.got = peer.got := by
  rw [userErrOut]
  split <;> exact ⟨rfl, rfl, rfl, rfl⟩

structure LastWords (user peer peer' : FwdUser) : Prop where
  st : peer'.st = .clean
  reason : peer'.reason = 0
  interest : peer'.interest = some ⟨false, true⟩
  pending : peer'.pending = none
  opened : peer'.opened = peer.opened
  data : peer'.buffer.data = user.buffer.data
  some : user.buffer.data ≠ []

theorem err_out_cases : ((userErrOut user peer).1 = .clean ∧ LastWords user peer (userErrOut user peer).2.2 ∧
      (userErrOut user peer).2.1.interest = none ∧ (userErrOut user peer).2.1.pending = none) ∨
    ((userErrOut user peer).1 = .down ∧ user.buffer.data = []) := by
  rw [userErrOut]
  split
  · rename_i some
    exact .inl ⟨rfl, ⟨rfl, rfl, rfl, rfl, rfl, rfl, some⟩, rfl, rfl⟩
  · rename_i empty
    exact .inr ⟨rfl, not_not.mp empty⟩

end Event

def Owed (skip : Nat) (peer : FwdUser) : List UInt8 := msgOk ++ peer.got.drop skip

structure Owes (skip : Nat) (user peer : FwdUser) : Prop where
  whole : user.put ++ peer.buffer.data = Owed skip peer
  registered : skip ≤ peer.got.length

section Owes

variable {skip : Nat} {user peer user' peer' : FwdUser}

theorem gave_owes (owes : Owes skip user peer) (ok : Bool) (gave : Gave ok user peer user' peer') :
    user'.put <+: Owed skip peer' ∧ skip ≤ peer'.got.length ∧ (ok = true → Owes skip user' peer') := by
  obtain ⟨n, put, rest⟩ := gave.bytes
  have same : Owed skip _ = Owed skip peer := congrArg (msgOk ++ drop skip ·) gave.peer_got
  have long : skip ≤ peer'.got.length := by
    rw [gave.peer_got]
    exact owes.registered
  refine ⟨?_, long, fun fine => ⟨?_, long⟩⟩
  · rw [put, same, ← owes.whole]
    exact (prefix_append_right_inj _).mpr (List.take_prefix n _)
  · rw [put, rest fine, append_assoc, take_append_drop, same, owes.whole]

theorem took_owes (owes : Owes skip user peer) (took : Took user peer user' peer') : Owes skip user' peer' := by
  refine ⟨?_, ?_⟩
  · rw [took.put, took.peer_data, owes.whole]
    exact congrArg (msgOk ++ drop skip ·) took.peer_got.symm
  · rw [took.peer_got]
    exact owes.registered

theorem took_owed (owes : Owes skip peer user) (took : Took user peer user' peer') : Owes skip peer' user' := by
  obtain ⟨bytes, got, data⟩ := took.bytes
  refine ⟨?_, ?_⟩
  · rw [took.peer_put, data, ← append_assoc, owes.whole, Owed, Owed, got, append_assoc, drop_append_of_le_length owes.registered]
  · rw [got, length_append]
    exact Nat.le_trans owes.registered (Nat.le_add_right _ _)

theorem gave_owed (owes : Owes skip peer user) (ok : Bool) (gave : Gave ok user peer user' peer') : Owes skip peer' user' := by
  refine ⟨?_, ?_⟩
  · rw [gave.peer_put, gave.data, owes.whole]
    exact congrArg (msgOk ++ drop skip ·) gave.got.symm
  · rw [gave.got]
    exact owes.registered

theorem owes_part (owes : Owes skip user peer) : user.put <+: Owed skip peer := by
  rw [← owes.whole]
  exact prefix_append _ _

end Owes

section Est

variable (user peer : FwdUser) (flg : Interest) (recvs : List Recv) (sends : List Send)

inductive Shaped (peer : FwdUser) (result : FwdStatus × FwdUser × FwdUser) : Prop where
  | up (status : result.1 = .est) (own : result.2.1.st = .est) (other : result.2.2.st = .est)
  | clean (status : result.1 = .clean) (last other : FwdUser) (opened : other.opened = peer.opened) (words : LastWords last other result.2.2)
      (interest : result.2.1.interest = none) (pending : result.2.1.pending = none)
  | down (status : result.1 = .down)

theorem err_out_shaped (last other : FwdUser) (opened : other.opened = peer.opened) : Shaped peer (userErrOut last other) := by
  rcases err_out_cases last _ with ⟨clean, words, interest, pending⟩ | ⟨down, _⟩
  · exact .clean clean last _ opened words interest pending
  · exact .down down

theorem est_shape (st : user.st = .est) (peer_st : peer.st = .est) : Shaped peer (userEventEst user peer flg recvs sends) := by
  obtain ⟨user1, peer1, took, out | ⟨ok, user2, peer2, gave, ⟨_, out⟩ | out⟩⟩ := est_cases user peer flg _ _
  · rw [out]
    exact err_out_shaped peer _ _ took.peer_opened
  · rw [out]
    exact .up rfl (gave.st.trans (took.st.trans st)) (gave.peer_st.trans (took.peer_st.trans peer_st))
  · rw [out]
    exact err_out_shaped peer _ _ (gave.peer_opened.trans took.peer_opened)

structure PutOut (skip : Nat) (result : FwdStatus × FwdUser × FwdUser) : Prop where
  part : result.2.1.put <+: Owed skip result.2.2
  est : result.1 = .est → Owes skip result.2.1 result.2.2

structure PutIn (skip : Nat) (result : FwdStatus × FwdUser × FwdUser) : Prop where
  part : result.2.2.put <+: Owed skip result.2.1
  est : result.1 = .est → Owes skip result.2.2 result.2.1
  clean : result.1 = .clean → result.2.2.put ++ result.2.2.buffer.data = Owed skip result.2.1
  down : result.1 = .down → result.2.2.put = Owed skip result.2.1

theorem err_out_over (last other : FwdUser) : (userErrOut last other).1 ≠ .est := by
  intro est
  rcases err_out_cases last _ with ⟨clean, _⟩ | ⟨down, _⟩
  · exact nomatch clean.symm.trans est
  · exact nomatch down.symm.trans est

theorem err_out_put (skip : Nat) (last other : FwdUser) (part : last.put <+: Owed skip other) : PutOut skip (userErrOut last other) := by
  obtain ⟨put, _, _, got⟩ := err_out_kept last _
  refine ⟨?_, fun est => absurd est (err_out_over last _)⟩
  rw [put, Owed, got]
  exact part

theorem err_out_in (skip : Nat) (last other : FwdUser) (owed : Owes skip other last) : PutIn skip (userErrOut last other) := by
  obtain ⟨_, got, put, _⟩ := err_out_kept last _
  have same : Owed skip _ = Owed skip last := congrArg (msgOk ++ drop skip ·) got
  refine ⟨?_, fun est => absurd est (err_out_over last _), fun clean => ?_, fun down => ?_⟩
  · rw [put, same]
    exact owes_part owed
  · rcases err_out_cases last _ with ⟨_, words, _⟩ | ⟨down, _⟩
    · rw [put, words.data, same, owed.whole]
    · exact nomatch down.symm.trans clean
  · rcases err_out_cases last _ with ⟨clean, _⟩ | ⟨_, empty⟩
    · exact nomatch clean.symm.trans down
    · rw [put, same, ← owed.whole, empty, append_nil]

theorem est_out (skip : Nat) (owes : Owes skip user peer) : PutOut skip (userEventEst user peer flg recvs sends) := by
  obtain ⟨user1, peer1, took, out | ⟨ok, user2, peer2, gave, ⟨fine, out⟩ | out⟩⟩ := est_cases user peer flg _ _
  · rw [out]
    exact err_out_put skip _ _ (owes_part (took_owes owes took))
  · obtain ⟨part, _, rest⟩ := gave_owes (took_owes owes took) ok gave
    rw [out]
    exact ⟨part, fun _ => rest fine⟩
  · rw [out]
    exact err_out_put skip _ _ (gave_owes (took_owes owes took) ok gave).1

theorem est_in (skip : Nat) (owes : Owes skip peer user) : PutIn skip (userEventEst user peer flg recvs sends) := by
  obtain ⟨user1, peer1, took, out | ⟨ok, user2, peer2, gave, ⟨_, out⟩ | out⟩⟩ := est_cases user peer flg _ _
  · rw [out]
    exact err_out_in skip _ _ (took_owed owes took)
  · have owed := gave_owed (took_owed owes took) ok gave
    rw [out]
    exact ⟨owes_part owed, fun _ => owed, nofun, nofun⟩
  · rw [out]
    exact err_out_in skip _ _ (gave_owed (took_owed owes took) ok gave)

end Est

structure Ending (sess : FwdSession) (side : Bool) : Prop where
  st : (sess.users side).st = .clean
  reason : (sess.users side).reason ≤ 0
  interest : (sess.users !side).interest = none
  pending : (sess.users !side).pending = none

structure RelayInv (skip : Nat) (side : Bool) (sess : FwdSession) : Prop where
  known : sess.st = .est ∨ sess.st = .clean ∨ sess.st = .down
  est : sess.st = .est → (∀ other, (sess.users other).st = .est) ∧ Owes skip (sess.users side) (sess.users !side)
  clean : sess.st = .clean → ∃ last, Ending sess last ∧
    (last = side → (sess.users side).put ++ (sess.users side).buffer.data = Owed skip (sess.users !side))
  down : sess.st = .down → ∀ other, (sess.users other).pending = none
  part : (sess.users side).put <+: Owed skip (sess.users !side)

theorem other_side (here side : Bool) (apart : here ≠ side) : side = !here := by
  revert apart
  cases here <;> cases side <;> simp

section Session

variable (skip : Nat) (side : Bool) (sess : FwdSession)

def estNext (here : Bool) (flg : Interest) (recvs : List Recv) (sends : List Send) : FwdSession :=
  let result := userEventEst (fwdEventTaken (sess.users here)) (sess.users !here) flg recvs sends
  sess.set here result.1 result.2.1 result.2.2

theorem est_next (here : Bool) (flg : Interest) (recvs : List Recv) (sends : List Send) (est : (sess.users here).st = .est) :
    userEventCb sess here flg recvs sends =
      if (estNext sess here flg recvs sends).st = .down then fwdSessionShutdown (estNext sess here flg recvs sends)
      else estNext sess here flg recvs sends :=
  event_est sess here flg _ _ est

structure NextRelay (skip : Nat) (side : Bool) (next : FwdSession) : Prop where
  part : (next.users side).put <+: Owed skip (next.users !side)
  est : next.st = .est → Owes skip (next.users side) (next.users !side)

structure NextLast (skip : Nat) (side : Bool) (next : FwdSession) : Prop where
  clean : next.st = .clean → (next.users side).put ++ (next.users side).buffer.data = Owed skip (next.users !side)
  down : next.st = .down → (next.users side).put = Owed skip (next.users !side)

theorem est_next_relay (owes : Owes skip (sess.users side) (sess.users !side)) (here : Bool) (flg : Interest) (recvs : List Recv)
    (sends : List Send) :
    NextRelay skip side (estNext sess here flg recvs sends) ∧ (here ≠ side → NextLast skip side (estNext sess here flg recvs sends)) := by
  rw [estNext]
  by_cases same : here = side
  · subst same
    have taken : Owes skip (fwdEventTaken _) _ := ⟨owes.whole, owes.registered⟩
    obtain ⟨part, rest⟩ := est_out _ _ flg _ _ skip taken
    refine ⟨⟨?_, ?_⟩, fun apart => absurd rfl apart⟩
    · rw [set_here, set_there]
      exact part
    · rw [set_here, set_there]
      exact rest
  · obtain rfl := other_side here side same
    rw [Bool.not_not] at owes
    have taken : Owes skip _ (fwdEventTaken _) := ⟨owes.whole, owes.registered⟩
    have ins := est_in _ _ flg recvs sends skip taken
    constructor
    · constructor
      · rw [Bool.not_not, set_here, set_there]
        exact ins.part
      · rw [Bool.not_not, set_here, set_there]
        exact ins.est
    · intro _
      constructor
      · rw [Bool.not_not, set_here, set_there]
        exact ins.clean
      · rw [Bool.not_not, set_here, set_there]
        exact ins.down

inductive NextShape (here : Bool) (next : FwdSession) : Prop where
  | up (status : next.st = .est) (users : ∀ other, (next.users other).st = .est)
  | clean (status : next.st = .clean) (last peer : FwdUser) (opened : peer.opened = (sess.users !here).opened)
      (words : LastWords last peer (next.users !here)) (interest : (next.users here).interest = none) (pending : (next.users here).pending = none)
  | down (status : next.st = .down)

theorem est_next_shape (est : ∀ other, (sess.users other).st = .est) (here : Bool) (flg : Interest) (recvs : List Recv) (sends : List Send) :
    NextShape sess here (estNext sess here flg recvs sends) := by
  cases est_shape (fwdEventTaken _) _ flg _ _ (est here) (est _) with
  | up status own other =>
    refine .up status fun user => ?_
    rw [estNext]
    by_cases same : here = user
    · rw [← same, set_here]
      exact own
    · rw [other_side here user same, set_there]
      exact other
  | clean status last peer opened words interest pending =>
    refine .clean status last peer opened ?_ ?_ ?_
    · rw [estNext, set_there]
      exact words
    · rw [estNext, set_here]
      exact interest
    · rw [estNext, set_here]
      exact pending
  | down status => exact .down status

theorem shutdown_relay (part : (sess.users side).put <+: Owed skip (sess.users !side)) : RelayInv skip side (fwdSessionShutdown sess) :=
  ⟨.inr (.inr rfl), nofun, nofun, fun _ _ => rfl, part⟩

theorem last_words_ending (here : Bool) (last peer : FwdUser) (words : LastWords last peer (sess.users !here)) (interest : (sess.users here).interest = none)
    (pending : (sess.users here).pending = none) : Ending sess !here := by
  refine ⟨words.st, Int.le_of_eq words.reason, ?_, ?_⟩
  · rw [Bool.not_not]
    exact interest
  · rw [Bool.not_not]
    exact pending

theorem est_relay (inv : RelayInv skip side sess) (est : sess.st = .est) (here : Bool) (flg : Interest) (recvs : List Recv) (sends : List Send) :
    RelayInv skip side (userEventCb sess here flg recvs sends) := by
  obtain ⟨both, owes⟩ := inv.est est
  obtain ⟨⟨part, rest⟩, last⟩ := est_next_relay skip side sess owes here flg _ _
  rw [est_next sess here flg _ _ (both here)]
  obtain ⟨up, users⟩ | ⟨clean, _, _, _, words, interest, pending⟩ | down := est_next_shape sess both here flg _ _
  · rw [if_neg (by rw [up]; exact nofun)]
    exact ⟨.inl up, fun _ => ⟨users, rest up⟩, fun clean => (nomatch up.symm.trans clean), fun down => (nomatch up.symm.trans down), part⟩
  · rw [if_neg (by rw [clean]; exact nofun)]
    refine ⟨.inr (.inl clean), fun up => (nomatch clean.symm.trans up), fun _ => ⟨!here, last_words_ending _ here _ _ words interest pending, ?_⟩,
      fun down => (nomatch clean.symm.trans down), part⟩
    intro same
    refine (last fun here_ => ?_).clean clean
    rw [here_] at same
    exact absurd same (by cases side <;> decide)
  · rw [if_pos down]
    exact shutdown_relay skip side _ part

theorem pack_nothing (user : FwdUser) (reason : user.reason ≤ 0) : userPackReason user = user := if_neg (Int.not_lt.mpr reason)

def cleanNext (last : Bool) (flg : Interest) (sends : List Send) : FwdSession :=
  let result := userEventClean (fwdEventTaken (sess.users last)) flg sends
  sess.set last result.1 result.2 (sess.users !last)

theorem clean_next (last : Bool) (flg : Interest) (recvs : List Recv) (sends : List Send) (clean : (sess.users last).st = .clean) :
    userEventCb sess last flg recvs sends =
      if (cleanNext sess last flg sends).st = .down then fwdSessionShutdown (cleanNext sess last flg sends) else cleanNext sess last flg sends :=
  event_clean sess last flg _ _ clean

theorem clean_relay (inv : RelayInv skip side sess) (last : Bool) (ending : Ending sess last)
    (words : last = side → (sess.users side).put ++ (sess.users side).buffer.data = Owed skip (sess.users !side))
    (flg : Interest) (recvs : List Recv) (sends : List Send) : RelayInv skip side (userEventCb sess last flg recvs sends) := by
  obtain ⟨n, put, reason, rest⟩ := clean_puts _ flg sends
  obtain ⟨ends, still⟩ := clean_ends (fwdEventTaken _) flg sends ending.st
  rw [pack_nothing (fwdEventTaken _) ending.reason] at put rest
  have here : (cleanNext sess last flg _).users last = (userEventClean _ flg sends).2 := set_here sess ..
  have there : (cleanNext sess last flg sends).users _ = sess.users _ := set_there sess ..
  have part : ((cleanNext sess last flg sends).users side).put <+: Owed skip ((cleanNext sess last flg sends).users !side) := by
    by_cases same : last = side
    · subst same
      rw [here, there, put, ← words rfl]
      exact (prefix_append_right_inj _).mpr (List.take_prefix n _)
    · obtain rfl := other_side last side same
      have kept := inv.part
      rw [Bool.not_not] at kept ⊢
      have got : (userEventClean (fwdEventTaken _) flg _).2.got = (sess.users last).got := clean_got _ flg sends
      rw [here, there, Owed, got]
      exact kept
  rw [clean_next sess last flg _ _ ending.st]
  rcases ends with clean | down
  · rw [if_neg (by rw [show (cleanNext sess last flg _).st = .clean from clean]; exact nofun)]
    refine ⟨.inr (.inl clean), fun up => (nomatch clean.symm.trans up), fun _ => ⟨last, ⟨?_, ?_, ?_, ?_⟩, fun same => ?_⟩,
      fun down => (nomatch clean.symm.trans down), part⟩
    · rw [here]
      exact still
    · rw [here]
      exact reason
    · rw [there]
      exact ending.interest
    · rw [there]
      exact ending.pending
    · subst same
      rw [here, there, put, rest clean, append_assoc, take_append_drop]
      exact words rfl
  · rw [if_pos (show (cleanNext sess last flg _).st = .down from down)]
    exact shutdown_relay skip side _ part

theorem wait_users (flags : Bool → Option Interest) (other : Bool) :
    (fwdWait sess flags).st = sess.st ∧ ((fwdWait sess flags).users other).put = (sess.users other).put ∧
    ((fwdWait sess flags).users other).got = (sess.users other).got ∧ ((fwdWait sess flags).users other).buffer = (sess.users other).buffer ∧
    ((fwdWait sess flags).users other).st = (sess.users other).st ∧ ((fwdWait sess flags).users other).reason = (sess.users other).reason ∧
    ((fwdWait sess flags).users other).interest = (sess.users other).interest := by
  rw [fwdWait]
  split <;> exact ⟨rfl, rfl, rfl, rfl, rfl, rfl, rfl⟩

theorem wait_pending (flags : Bool → Option Interest) (other : Bool) (interest : (sess.users other).interest = none)
    (pending : (sess.users other).pending = none) : ((fwdWait sess flags).users other).pending = none := by
  rw [fwdWait]
  split
  · dsimp only
    rw [interest]
    rfl
  · exact pending

theorem wait_relay (inv : RelayInv skip side sess) (up : sess.st ≠ .down) (flags : Bool → Option Interest) : RelayInv skip side (fwdWait sess flags) := by
  obtain ⟨st, put, _, buffer, _⟩ := wait_users sess _ side
  obtain ⟨_, _, got, other_buffer, _⟩ := wait_users sess _ _
  refine ⟨?_, fun est => ?_, fun clean => ?_, fun down other => ?_, ?_⟩
  · rw [st]
    exact inv.known
  · rw [st] at est
    obtain ⟨users, owes⟩ := inv.est est
    refine ⟨fun other => (wait_users sess _ _).2.2.2.2.1.trans (users _), ?_, ?_⟩
    · rw [put, other_buffer, Owed, got]
      exact owes.whole
    · rw [got]
      exact owes.registered
  · rw [st] at clean
    obtain ⟨last, ending, words⟩ := inv.clean clean
    obtain ⟨_, _, _, _, user_st, reason, _⟩ := wait_users sess _ last
    refine ⟨last, ⟨user_st.trans ending.st, ?_, (wait_users sess _ _).2.2.2.2.2.2.trans ending.interest,
      wait_pending sess _ _ ending.interest ending.pending⟩, fun same => ?_⟩
    · rw [reason]
      exact ending.reason
    · rw [put, buffer, Owed, got]
      exact words same
  · exact absurd (st.symm.trans down) up
  · rw [put, Owed, got]
    exact inv.part

theorem step_relay (inv : RelayInv skip side sess) (event : FwdStep) : RelayInv skip side (fwdStep sess event) := by
  cases event with
  | wait flags =>
    rw [fwdStep]
    split
    · exact inv
    · rename_i up
      exact wait_relay skip side sess inv up _
  | handle here recvs sends =>
    rw [fwdStep]
    cases reported : (sess.users here).pending with
    | none => exact inv
    | some flg =>
      rcases inv.known with est | clean | down
      · exact est_relay skip side sess inv est here flg _ _
      · obtain ⟨last, ending, words⟩ := inv.clean clean
        by_cases same : last = here
        · subst same
          exact clean_relay skip side sess inv last ending words flg _ _
        · obtain rfl := other_side last here same
          cases ending.pending.symm.trans reported
      · cases (inv.down down here).symm.trans reported
  | hangup here =>
    rw [fwdStep]
    split
    · exact inv
    · exact shutdown_relay skip side sess inv.part
  | timeout => exact shutdown_relay skip side sess inv.part

end Session

def Smooth (side : Bool) (_ : FwdSession) : FwdStep → Prop
  | .wait _ => True
  | .handle here recvs sends => (∀ answer ∈ recvs, answer ≠ .error ∧ (here = side → answer ≠ .eof)) ∧
      ∃ more rest, sends = .took more :: rest ∧ ∀ answer ∈ rest, answer ≠ .error
  | .hangup _ => False
  | .timeout => False

structure Flushing (user : FwdUser) : Prop where
  st : user.st = .clean
  reason : user.reason ≤ 0
  opened : user.opened = true
  interest : user.interest = some ⟨false, true⟩
  pending : ∀ flg, user.pending = some flg → flg.write = true
  some : user.buffer.data ≠ []

structure EndInv (skip : Nat) (side : Bool) (sess : FwdSession) : Prop where
  flow : FlowInv sess
  relay : RelayInv skip side sess
  clean : sess.st = .clean → Flushing (sess.users side) ∧ (sess.users !side).interest = none ∧ (sess.users !side).pending = none ∧
    (sess.users side).put ++ (sess.users side).buffer.data = Owed skip (sess.users !side)
  down : sess.st = .down → (sess.users side).put = Owed skip (sess.users !side)

theorem within_write (flags : Option Interest) (flg : Interest) (reported : within (some ⟨false, true⟩) flags = some flg) : flg.write = true := by
  cases flags with
  | none => cases reported
  | some flags =>
    rw [within] at reported
    split at reported
    · rename_i wanted
      rw [← Option.some.inj reported]
      exact (Bool.or_eq_true_iff.mp wanted).resolve_left (by rintro ⟨⟩)
    · cases reported

theorem flush_alive (user : FwdUser) (flushing : Flushing user) (flg : Interest) (write : flg.write = true) (more : Nat) (rest : List Send)
    (alive : ∀ answer ∈ rest, answer ≠ .error) :
    ((userEventClean user flg (.took more :: rest)).1 = .clean ∧ (userEventClean user flg (.took more :: rest)).2.buffer.data ≠ [] ∨
      (userEventClean user flg (.took more :: rest)).1 = .down ∧ (userEventClean user flg (.took more :: rest)).2.buffer.data = []) ∧
    (userEventClean user flg (.took more :: rest)).2.put ++ (userEventClean user flg (.took more :: rest)).2.buffer.data =
      user.put ++ user.buffer.data ∧ (userEventClean user flg (.took more :: rest)).2.opened = true ∧
    (userEventClean user flg (.took more :: rest)).2.interest = user.interest ∧
    (userEventClean user flg (.took more :: rest)).2.pending = user.pending := by
  obtain ⟨bytes, some, count⟩ := sock_send_alive more rest alive _ flushing.some
  have ret : (userSockSend user user.buffer.data (.took more :: rest)).1 = .count bytes := by
    rw [userSockSend, if_pos flushing.opened]
    exact count
  obtain ⟨n, _, put, counted⟩ := user_send_data user _ _
  obtain ⟨_, interest, pending, buffer, _⟩ := user_send_same user _ _
  have opened := user_send_opened user _ _ (by rw [ret]; rintro ⟨⟩)
  rw [userEventClean, pack_nothing user flushing.reason, if_pos write]
  generalize userSockSend user _ _ = result at ret put counted interest pending buffer opened ⊢
  obtain ⟨status, sent⟩ := result
  subst ret
  have data : (fwdBufferRefresh (sentFrom sent.buffer (.count bytes))).data = user.buffer.data.drop n := by
    rw [refresh_data, sentFrom, drain_data, buffer, counted _ rfl]
  have whole : sent.put ++ (fwdBufferRefresh (sentFrom sent.buffer (.count bytes))).data = user.put ++ user.buffer.data := by
    rw [put, data, append_assoc, take_append_drop]
  dsimp only
  rw [if_neg some]
  split
  · rename_i left
    exact ⟨.inl ⟨rfl, left⟩, whole, opened, interest, pending⟩
  · rename_i empty
    exact ⟨.inr ⟨rfl, not_not.mp empty⟩, whole, opened, interest, pending⟩

section Complete

variable (skip : Nat) (side : Bool) (sess : FwdSession)

theorem est_end (inv : EndInv skip side sess) (est : sess.st = .est) (here : Bool) (flg : Interest) (reported : (sess.users here).pending = some flg)
    (recvs : List Recv) (sends : List Send) (smooth : Smooth side sess (.handle here recvs sends)) :
    EndInv skip side (userEventCb sess here flg recvs sends) := by
  obtain ⟨both, owes⟩ := inv.relay.est est
  have flow := event_keeps sess inv.flow here flg reported recvs sends
  have relay := est_relay skip side sess inv.relay est here flg recvs sends
  by_cases same : here = side
  · have healthy : Healthy _ _ := ⟨fun answer there => ⟨(smooth.1 _ there).2 same, (smooth.1 _ there).1⟩, smooth.2⟩
    have stays := healthy_stays sess inv.flow est here _ _ healthy
    rw [fwdStep, reported] at stays
    have up : (userEventCb sess here flg _ _).st = .est := stays
    exact ⟨flow, relay, fun clean => (by cases up.symm.trans clean), fun down => by cases up.symm.trans down⟩
  · obtain rfl := other_side here side same
    obtain ⟨words, nothing⟩ := (est_next_relay skip _ sess owes here flg _ _).2 same
    rw [est_next sess here flg _ _ (both here)] at flow relay ⊢
    obtain ⟨up, _⟩ | ⟨clean, _, _, opened, left, interest, pending⟩ | down := est_next_shape sess both here flg _ _
    · rw [if_neg (by rw [up]; rintro ⟨⟩)] at flow relay ⊢
      exact ⟨flow, relay, fun clean => (by cases up.symm.trans clean), fun down => by cases up.symm.trans down⟩
    · rw [if_neg (by rw [clean]; rintro ⟨⟩)] at flow relay ⊢
      have flushing : Flushing _ :=
        ⟨left.st, Int.le_of_eq left.reason, left.opened.trans (opened.trans (inv.flow.est est _).opened), left.interest,
          fun flg held => (by cases left.pending.symm.trans held), by rw [left.data]; exact left.some⟩
      refine ⟨flow, relay, fun _ => ⟨flushing, ?_, ?_, words clean⟩, fun down => by cases clean.symm.trans down⟩
      · rw [Bool.not_not]
        exact interest
      · rw [Bool.not_not]
        exact pending
    · rw [if_pos down] at flow relay ⊢
      exact ⟨flow, relay, (by rintro ⟨⟩), fun _ => nothing down⟩

theorem flush_end (inv : EndInv skip side sess) (clean : sess.st = .clean) (flg : Interest) (reported : (sess.users side).pending = some flg)
    (recvs : List Recv) (sends : List Send) (smooth : Smooth side sess (.handle side recvs sends)) :
    EndInv skip side (userEventCb sess side flg recvs sends) := by
  obtain ⟨flushing, interest, pending, words⟩ := inv.clean clean
  obtain ⟨more, rest, rfl, alive⟩ := smooth.2
  have flow := event_keeps sess inv.flow side flg reported recvs (.took more :: rest)
  have relay := step_relay skip side sess inv.relay (.handle side recvs (.took more :: rest))
  rw [fwdStep, reported] at relay
  have taken : Flushing (fwdEventTaken _) :=
    ⟨flushing.st, flushing.reason, flushing.opened, flushing.interest, (by rintro _ ⟨⟩), flushing.some⟩
  obtain ⟨ends, whole, opened, wanted, none_⟩ := flush_alive _ taken flg (flushing.pending flg reported) more rest alive
  obtain ⟨_, put_reason, _⟩ := (clean_puts _ flg _).choose_spec
  have still := (clean_ends (fwdEventTaken _) flg (.took more :: rest) flushing.st).2
  have here : (cleanNext sess side flg _).users side =
      (userEventClean _ flg (.took more :: rest)).2 := set_here sess ..
  have there : (cleanNext sess side flg (.took more :: rest)).users _ = sess.users _ := set_there sess ..
  change RelayInv skip side (userEventCb sess side flg _ _) at relay
  rw [clean_next sess side flg _ _ flushing.st] at flow relay ⊢
  have owed := whole.trans words
  rw [← here] at owed put_reason still opened wanted none_
  rcases ends with ⟨up, left⟩ | ⟨down, empty⟩
  · rw [← here] at left
    rw [if_neg (by rw [show (cleanNext sess side flg _).st = .clean from up]; rintro ⟨⟩)] at flow relay ⊢
    refine ⟨flow, relay, fun _ => ⟨⟨still, put_reason, opened, wanted.trans flushing.interest, fun flg held => (by cases none_.symm.trans held), left⟩,
      ?_, ?_, ?_⟩, fun down => by cases up.symm.trans down⟩
    · rw [there]
      exact interest
    · rw [there]
      exact pending
    · rw [there]
      exact owed
  · rw [← here] at empty
    rw [if_pos (show (cleanNext sess side flg _).st = .down from down)] at flow relay ⊢
    refine ⟨flow, relay, (by rintro ⟨⟩), fun _ => ?_⟩
    rw [empty, append_nil, ← there] at owed
    exact owed

theorem step_end (inv : EndInv skip side sess) (event : FwdStep) (smooth : Smooth side sess event) : EndInv skip side (fwdStep sess event) := by
  have flow := step_keeps sess inv.flow event
  have relay := step_relay skip side sess inv.relay event
  cases event with
  | wait flags =>
    rw [fwdStep] at flow relay ⊢
    split at flow
    · rename_i down
      rw [if_pos down]
      exact inv
    · rename_i up
      rw [if_neg up] at relay ⊢
      obtain ⟨st, put, _, buffer, user_st, reason, interest⟩ := wait_users sess _ side
      have got := (wait_users sess flags !side).2.2.1
      refine ⟨flow, relay, fun clean => ?_, fun down => absurd (st.symm.trans down) up⟩
      obtain ⟨flushing, gone, alone, words⟩ := inv.clean (st.symm.trans clean)
      refine ⟨⟨user_st.trans flushing.st, ?_, ?_, interest.trans flushing.interest, ?_, ?_⟩,
        (wait_users sess _ _).2.2.2.2.2.2.trans gone, wait_pending sess _ _ gone alone, ?_⟩
      · rw [reason]
        exact flushing.reason
      · rw [fwdWait]
        split <;> exact flushing.opened
      · rw [fwdWait]
        split
        · intro flg held
          change within _ _ = some flg at held
          rw [flushing.interest] at held
          exact within_write _ flg held
        · exact flushing.pending
      · rw [buffer]
        exact flushing.some
      · rw [put, buffer, Owed, got]
        exact words
  | handle here recvs sends =>
    rw [fwdStep]
    cases reported : (sess.users here).pending with
    | none => exact inv
    | some flg =>
      rcases inv.relay.known with est | clean | down
      · exact est_end skip side sess inv est here flg reported _ _ smooth
      · by_cases same : side = here
        · subst same
          exact flush_end skip side sess inv clean flg reported _ _ smooth
        · obtain rfl := other_side side here same
          cases (inv.clean clean).2.2.1.symm.trans reported
      · cases (inv.relay.down down here).symm.trans reported
  | hangup here => exact smooth.elim
  | timeout => exact smooth.elim

end Complete

section Start

variable (reads1 reads2 : List (List Recv)) (user1 user2 : FwdUser)
  (registered1 : userRegister fwdUserInit reads1 = some user1) (registered2 : userRegister fwdUserInit reads2 = some user2)

include registered1 registered2

theorem both_registered (side : Bool) : Registered (if side then user1 else user2) := by
  cases side with
  | true => exact user_registered _ _ init_heard (.inl rfl) _ registered1
  | false => exact user_registered _ _ init_heard (.inl rfl) _ registered2

theorem start_relay (side : Bool) (nothing : (if side then user2 else user1).buffer.data = [])
    (room : 12 < (if side then user2 else user1).buffer.left) :
    RelayInv (if side then user2 else user1).buffer.trash side (fwdSessionStEstablished user1 user2) := by
  have peer : (if (!side) then user1 else user2) = if side then user2 else user1 := by cases side <;> rfl
  have own := both_registered _ _ _ _ registered1 registered2 side
  have other := both_registered _ _ _ _ registered1 registered2 !side
  obtain ⟨_, _, _, _, _, _, put⟩ := start_users _ _ side
  obtain ⟨_, _, _, _, buffer, got, _⟩ := start_users _ _ _
  rw [peer] at other buffer got
  rw [own.put] at put
  have behind : (if side then user2 else user1).got.drop _ = [] := other.got.trans nothing
  have owes : Owes (if side then user2 else user1).buffer.trash ((fwdSessionStEstablished user1 user2).users side)
      ((fwdSessionStEstablished user1 user2).users !side) := by
    refine ⟨?_, ?_⟩
    · rw [put, buffer, (pack_room _ _ 0 room).1, nothing, Owed, got, behind]
      rfl
    · rw [got]
      exact other.drained
  exact ⟨.inl rfl, fun _ => ⟨fun user => (start_users _ _ user).1, owes⟩, nofun, nofun, owes_part owes⟩

theorem relay (side : Bool) (nothing : (if side then user2 else user1).buffer.data = [])
    (room : 12 < (if side then user2 else user1).buffer.left) (steps : List FwdStep) :
    ((run fwdStep (fwdSessionStEstablished user1 user2) steps).users side).put <+:
      Owed (if side then user2 else user1).buffer.trash ((run fwdStep (fwdSessionStEstablished user1 user2) steps).users !side) ∧
    (Fit user1 ∧ Fit user2 → AllSteps fwdStep (Smooth side) (fwdSessionStEstablished user1 user2) steps →
      (run fwdStep (fwdSessionStEstablished user1 user2) steps).st = .down →
      ((run fwdStep (fwdSessionStEstablished user1 user2) steps).users side).put =
        Owed (if side then user2 else user1).buffer.trash ((run fwdStep (fwdSessionStEstablished user1 user2) steps).users !side)) := by
  have start := start_relay _ _ _ _ registered1 registered2 side nothing room
  constructor
  · have kept := run_keeps _ _ _
      _ _ start (fun sess event inv _ => step_relay _ side sess inv event)
      (all_steps_of_all _ _ _ steps fun _ _ => trivial)
    exact kept.part
  · rintro ⟨fit1, fit2⟩ smooth
    have opened1 := (both_registered _ _ _ _ registered1 registered2 true).opened
    have opened2 := (both_registered _ _ _ _ registered1 registered2 false).opened
    have first : EndInv _ side _ := ⟨start_inv _ _ opened1 opened2 fit1 fit2, start, nofun, nofun⟩
    exact (run_keeps _ _ _ _ _ first (fun sess event inv allowed => step_end _ side sess inv _ allowed) smooth).down

end Start

-- The peer sends two bytes and ends while the second one is in its buffer.
def sentThenEnded : List FwdStep := [.wait fun _ => some ⟨true, true⟩, .handle true [] [.took 7], .handle false [.data 5 [6]] [.took 7],
  .wait fun _ => some ⟨true, true⟩, .handle true [] [.took 0], .handle false [.eof] [.took 0], .wait fun _ => some ⟨true, true⟩,
  .handle true [] [.took 0]]

theorem relay_registered : ∃ user1 user2, userRegister fwdUserInit (registerReads []) = some user1 ∧
    userRegister fwdUserInit (registerReads []) = some user2 ∧
    ((run fwdStep (fwdSessionStEstablished user1 user2) sentThenEnded).users true).put <+:
      Owed user2.buffer.trash ((run fwdStep (fwdSessionStEstablished user1 user2) sentThenEnded).users false) ∧
    msgOk ++ [5, 6] = Owed user2.buffer.trash ((run fwdStep (fwdSessionStEstablished user1 user2) sentThenEnded).users false) := by
  obtain ⟨user, registered, data, trash⟩ := register_behind [] (by decide)
  have room : 12 < user.buffer.left := by
    rw [FwdBuffer.left, data, trash]
    decide
  have ended : ((userRegister fwdUserInit (registerReads [])).map fun user =>
      ((run fwdStep (fwdSessionStEstablished user user) sentThenEnded).st, ((run fwdStep (fwdSessionStEstablished user user) sentThenEnded).users true).put)) =
      some (.down, msgOk ++ [5, 6]) := by decide +kernel
  rw [registered] at ended
  obtain ⟨down, put⟩ := Prod.mk.inj (Option.some.inj ended)
  obtain ⟨part, whole⟩ := relay _ _ user user registered registered true data room _
  have smooth : AllSteps fwdStep (Smooth true) (fwdSessionStEstablished user user) sentThenEnded :=
    ⟨trivial, ⟨nofun, _, _, rfl, nofun⟩, ⟨by decide, _, _, rfl, nofun⟩, trivial, ⟨nofun, _, _, rfl, nofun⟩,
      ⟨by decide, _, _, rfl, nofun⟩, trivial, ⟨nofun, _, _, rfl, nofun⟩, trivial⟩
  exact ⟨user, user, registered, registered, part, put.symm.trans (whole ⟨.inl room, .inl room⟩ smooth down)⟩

theorem early_byte_first : ¬ ∀ reads1 reads2 user1 user2 side steps, userRegister fwdUserInit reads1 = some user1 →
    userRegister fwdUserInit reads2 = some user2 → ((run fwdStep (fwdSessionStEstablished user1 user2) steps).users side).put <+:
      Owed (if side then user2 else user1).buffer.trash ((run fwdStep (fwdSessionStEstablished user1 user2) steps).users !side) := by
  intro all
  obtain ⟨user1, registered1, _⟩ := register_behind [] (by decide)
  obtain ⟨user2, registered2, _⟩ := register_behind [7] (by decide)
  have relayed : ((userRegister fwdUserInit (registerReads [])).bind fun user1 => (userRegister fwdUserInit (registerReads [7])).map fun user2 =>
      ((run fwdStep (fwdSessionStEstablished user1 user2) [.wait fun _ => some ⟨true, true⟩, .handle true [] [.took 8]]).users true).put) =
      some ([7] ++ msgOk) := by decide +kernel
  rw [registered1, registered2] at relayed
  have part := all _ _ _ _ true [.wait fun _ => some ⟨true, true⟩, .handle true [] [.took 8]] registered1 registered2
  have put : ((run fwdStep _ _).users true).put =
      [7] ++ msgOk := Option.some.inj relayed
  rw [put] at part
  obtain ⟨rest, whole⟩ := part
  exact absurd (cons.inj whole).1 (by decide)

end Codec.Fwd
