import Codec.Fwd.Register

set_option autoImplicit false

namespace Codec.Fwd

open Codec.Lib

def wantsRead (user : FwdUser) : Bool := user.interest.any Interest.read
def wantsWrite (user : FwdUser) : Bool := user.interest.any Interest.write

structure FlowOk (user peer : FwdUser) : Prop where
  writes : wantsWrite user = true ↔ peer.buffer.data ≠ []
  reads : wantsRead user = true → 0 < user.buffer.left
  idle : user.buffer.data = [] → wantsRead user = true

def PendingOk (flags : Option Interest) (user peer : FwdUser) : Prop :=
  ∀ flg, flags = some flg → (flg.read = true → 0 < user.buffer.left) ∧ (flg.write = true → peer.buffer.data ≠ [])

structure UserOk (user peer : FwdUser) : Prop where
  st : user.st = .est
  opened : user.opened = true
  flow : FlowOk user peer
  pending : PendingOk user.pending user peer

structure PairOk (user peer : FwdUser) : Prop where
  first : UserOk user peer
  second : UserOk peer user
  alone : user.pending = none

structure FlowInv (sess : FwdSession) : Prop where
  known : sess.st = .est ∨ sess.st = .clean ∨ sess.st = .down
  est : sess.st = .est → ∀ side, UserOk (sess.users side) (sess.users !side)
  clean : sess.st = .clean → ∃ side, (sess.users side).st = .clean ∧ (sess.users !side).interest = none ∧ (sess.users !side).pending = none
  down : sess.st = .down → ∀ side, (sess.users side).pending = none

theorem set_either_buffer (c : Prop) [Decidable c] (user : FwdUser) (one other : Interest) :
    (if c then fwdUserEventSet user one else fwdUserEventSet user other).buffer = user.buffer := by
  split <;> rfl

theorem err_out_ends (user peer : FwdUser) : ((userErrOut user peer).1 = .clean ∧ (userErrOut user peer).2.2.st = .clean ∧
      (userErrOut user peer).2.1.interest = none ∧ (userErrOut user peer).2.1.pending = none) ∨ (userErrOut user peer).1 = .down := by
  rw [userErrOut]
  split
  · exact .inl ⟨rfl, rfl, rfl, rfl⟩
  · exact .inr rfl

section Pair

variable {user peer : FwdUser} (ok : PairOk user peer)

include ok

theorem read_keeps (recvs : List Recv) (fine : (userEventRead user peer recvs).1 = true) :
    PairOk (userEventRead user peer recvs).2.1 (userEventRead user peer recvs).2.2 ∧
      (userEventRead user peer recvs).2.2.buffer = peer.buffer := by
  obtain ⟨bytes, _, data, trash, ret⟩ := user_read_data user _
  obtain ⟨st, interest, pending, _⟩ := user_read_same user _
  have opened := user_read_opened user recvs ok.first.opened
  rw [userEventRead] at fine ⊢
  generalize userSockRead user _ = result at *
  obtain ⟨status, after⟩ := result
  have wants_read : wantsRead _ = wantsRead user := congrArg (Option.any _) interest
  have wants_write : wantsWrite _ = wantsWrite user := congrArg (Option.any _) interest
  have alone : after.pending = none := pending.trans ok.alone
  cases status with
  | error => exact nomatch fine
  | again =>
    have none_read : bytes = [] := ret
    rw [none_read, List.append_nil] at data
    have same_data : after.buffer.data = user.buffer.data := data
    have left : after.buffer.left = user.buffer.left := by rw [FwdBuffer.left, FwdBuffer.left, same_data, show after.buffer.trash = _ from trash]
    refine ⟨⟨⟨st.trans ok.first.st, opened nofun, ⟨?_, ?_, ?_⟩, ?_⟩, ⟨ok.second.st, ok.second.opened, ⟨?_, ok.second.flow.reads, ok.second.flow.idle⟩, ?_⟩, alone⟩, rfl⟩
    · exact wants_write ▸ ok.first.flow.writes
    · exact fun wants => left ▸ ok.first.flow.reads (wants_read ▸ wants)
    · exact fun empty => wants_read ▸ ok.first.flow.idle (same_data ▸ empty)
    · exact fun flg held => nomatch alone.symm.trans held
    · exact same_data ▸ ok.second.flow.writes
    · exact fun flg held => ⟨(ok.second.pending flg held).1, fun write => same_data ▸ (ok.second.pending flg held).2 write⟩
  | count number =>
    dsimp only at fine ⊢
    by_cases zero : number = 0
    · rw [if_pos zero] at fine
      exact nomatch fine
    · have filled : after.buffer.data ≠ [] := by
        have length : number = bytes.length := ret zero
        have some : bytes ≠ [] := fun empty => zero (by rw [length, empty]; rfl)
        exact data ▸ List.append_ne_nil_of_right_ne_nil _ some
      have peer_left : peer.buffer.data = [] → 0 < peer.buffer.left := fun empty => ok.second.flow.reads (ok.second.flow.idle empty)
      have peer_pending (flg : Interest) (held : peer.pending = some flg) : flg.read = true → 0 < peer.buffer.left := (ok.second.pending flg held).1
      rw [if_neg zero]
      dsimp only
      refine ⟨⟨?_, ?_, ?_⟩, ?_⟩
      · by_cases full : after.buffer.left = 0
        · rw [if_pos full]
          by_cases waiting : peer.buffer.data ≠ []
          · rw [if_pos waiting]
            refine ⟨st.trans ok.first.st, opened nofun, ⟨?_, nofun, fun empty => absurd empty filled⟩, fun flg held => nomatch alone.symm.trans held⟩
            split <;> exact ⟨fun _ => waiting, fun _ => rfl⟩
          · rw [if_neg waiting]
            refine ⟨st.trans ok.first.st, opened nofun, ⟨?_, nofun, fun empty => absurd empty filled⟩, nofun⟩
            split <;> exact ⟨nofun, fun some => absurd some waiting⟩
        · rw [if_neg full]
          refine ⟨st.trans ok.first.st, opened nofun, ⟨?_, fun _ => Nat.pos_of_ne_zero full, fun empty => absurd empty filled⟩,
            fun flg held => nomatch alone.symm.trans held⟩
          split <;> exact wants_write ▸ ok.first.flow.writes
      · have data_kept : (if after.buffer.left = 0 then
            if peer.buffer.data ≠ [] then fwdUserEventSet after ⟨false, true⟩ else fwdUserEventCancel after else after).buffer = after.buffer := by
          split
          · split <;> rfl
          · rfl
        have now_filled : (if after.buffer.left = 0 then
            if peer.buffer.data ≠ [] then fwdUserEventSet after ⟨false, true⟩ else fwdUserEventCancel after else after).buffer.data ≠ [] := by
          rw [data_kept]
          exact filled
        by_cases full : peer.buffer.left = 0
        · rw [if_pos full]
          refine ⟨ok.second.st, ok.second.opened, ⟨⟨fun _ => now_filled, fun _ => rfl⟩, nofun, fun empty => ?_⟩,
            fun flg held => ⟨peer_pending flg held, fun _ => now_filled⟩⟩
          exact absurd full (Nat.ne_of_gt (peer_left empty))
        · rw [if_neg full]
          exact ⟨ok.second.st, ok.second.opened, ⟨⟨fun _ => now_filled, fun _ => rfl⟩, fun _ => Nat.pos_of_ne_zero full, fun _ => rfl⟩,
            fun flg held => ⟨peer_pending flg held, fun _ => now_filled⟩⟩
      · split
        · split
          · exact alone
          · rfl
        · exact alone
      · split <;> rfl

theorem write_keeps (sends : List Send) (filled : peer.buffer.data ≠ []) (fine : (userEventWrite user peer sends).1 = true) :
    PairOk (userEventWrite user peer sends).2.1 (userEventWrite user peer sends).2.2 := by
  obtain ⟨n, bound, _, counted⟩ := user_send_data user _ _
  obtain ⟨st, interest, pending, buffer, _⟩ := user_send_same user _ _
  have opened := user_send_opened user peer.buffer.data sends
  rw [userEventWrite] at fine ⊢
  generalize userSockSend user _ _ = result at *
  obtain ⟨status, after⟩ := result
  cases status with
  | again => exact nomatch fine
  | error => exact nomatch fine
  | count number =>
    dsimp only at fine st interest pending buffer ⊢
    by_cases zero : number = 0
    · rw [if_pos zero] at fine
      exact nomatch fine
    · have wants_read : wantsRead _ = wantsRead user := congrArg (Option.any _) interest
      have wants_write : wantsWrite _ = wantsWrite user := congrArg (Option.any _) interest
      have alone : after.pending = none := pending.trans ok.alone
      rw [if_neg zero]
      generalize room : (if (sentFrom _ _).left ≤ fwdBufferDefaultSize / 4 then
        fwdBufferRefresh _ else sentFrom _ _) = rest
      have left : 0 < rest.left := by
        have drained : (sentFrom _ (.count _)).data = peer.buffer.data.drop number := rfl
        have fits := peer.buffer.fits
        rw [← room]
        split
        · rw [refresh_left, drained, List.length_drop, fwdBufferDefaultSize] at *
          omega
        · omega
      have idle : after.buffer.data = [] → after.buffer.left ≠ 0 := by
        rw [buffer]
        exact fun empty => Nat.ne_of_gt (ok.first.flow.reads (ok.first.flow.idle empty))
      have second (next : FwdUser) (same : next.buffer = after.buffer) :
          UserOk (if next.buffer.data = [] then fwdUserEventSet { peer with buffer := rest } ⟨true, false⟩
            else fwdUserEventSet { peer with buffer := rest } ⟨true, true⟩) next := by
        have waiting : PendingOk peer.pending { peer with buffer := rest } next := by
          intro flg held
          refine ⟨fun _ => left, fun write => ?_⟩
          rw [same, buffer]
          exact (ok.second.pending flg held).2 write
        by_cases empty : next.buffer.data = []
        · rw [if_pos empty]
          exact ⟨ok.second.st, ok.second.opened, ⟨⟨nofun, fun some => absurd empty some⟩, fun _ => left, fun _ => rfl⟩, waiting⟩
        · rw [if_neg empty]
          exact ⟨ok.second.st, ok.second.opened, ⟨⟨fun _ => empty, fun _ => rfl⟩, fun _ => left, fun _ => rfl⟩, waiting⟩
      have first (other : FwdUser) (same : other.buffer = rest) :
          UserOk (if rest.data = [] then if after.buffer.left = 0 then fwdUserEventCancel after else fwdUserEventSet after ⟨true, false⟩
            else after) other := by
        have none_pending (flags : Option _) (none_there : flags = none) (user peer : FwdUser) : PendingOk _ user peer :=
          fun flg held => nomatch none_there.symm.trans held
        by_cases empty : rest.data = []
        · rw [if_pos empty]
          by_cases full : after.buffer.left = 0
          · rw [if_pos full]
            refine ⟨st.trans ok.first.st, opened nofun, ⟨⟨nofun, fun some => absurd (same ▸ empty) some⟩, nofun, ?_⟩, none_pending _ rfl _ _⟩
            exact fun none_there => absurd full (idle none_there)
          · rw [if_neg full]
            exact ⟨st.trans ok.first.st, opened nofun, ⟨⟨nofun, fun some => absurd (same ▸ empty) some⟩, fun _ => Nat.pos_of_ne_zero full,
              fun _ => rfl⟩, none_pending _ alone _ _⟩
        · rw [if_neg empty]
          refine ⟨st.trans ok.first.st, opened nofun, ⟨?_, ?_, ?_⟩, none_pending _ alone _ _⟩
          · rw [wants_write, same]
            exact ⟨fun _ => empty, fun _ => ok.first.flow.writes.mpr filled⟩
          · rw [wants_read, buffer]
            exact ok.first.flow.reads
          · rw [wants_read, buffer]
            exact ok.first.flow.idle
      refine ⟨first _ (set_either_buffer _ _ _ _), second _ ?_, ?_⟩
      · split
        · split <;> rfl
        · rfl
      · split
        · split
          · rfl
          · exact alone
        · exact alone

theorem est_keeps (flg : Interest) (recvs : List Recv) (sends : List Send) (for_ : PendingOk (some flg) user peer) :
    ((userEventEst user peer flg recvs sends).1 = .est ∧
      PairOk (userEventEst user peer flg recvs sends).2.1 (userEventEst user peer flg recvs sends).2.2) ∨
    ((userEventEst user peer flg recvs sends).1 = .clean ∧ (userEventEst user peer flg recvs sends).2.2.st = .clean ∧
      (userEventEst user peer flg recvs sends).2.1.interest = none ∧ (userEventEst user peer flg recvs sends).2.1.pending = none) ∨
    (userEventEst user peer flg recvs sends).1 = .down := by
  have read_ok : (if flg.read then userEventRead user peer recvs else (true, user, peer)).1 = true →
      PairOk (if flg.read then userEventRead user peer recvs else (true, user, peer)).2.1
        (if flg.read then userEventRead user peer recvs else (true, user, peer)).2.2 ∧
      (if flg.read then userEventRead user peer recvs else (true, user, peer)).2.2.buffer = peer.buffer := by
    split
    · exact read_keeps ok _
    · exact fun _ => ⟨ok, rfl⟩
  rw [userEventEst]
  generalize (if flg.read then userEventRead user peer _ else (true, user, peer)) = result at *
  obtain ⟨fine, user_, peer_⟩ := result
  cases fine with
  | false => exact .inr (err_out_ends _ _)
  | true =>
    obtain ⟨ok_, buffer⟩ := read_ok rfl
    have write_ok : (if flg.write then userEventWrite user_ peer_ sends else (true, user_, peer_)).1 = true →
        PairOk (if flg.write then userEventWrite user_ peer_ sends else (true, user_, peer_)).2.1
          (if flg.write then userEventWrite user_ peer_ sends else (true, user_, peer_)).2.2 := by
      split
      · rename_i write
        have filled : peer_.buffer.data ≠ [] := by
          rw [show peer_.buffer = peer.buffer from buffer]
          exact (for_ flg rfl).2 write
        exact write_keeps ok_ _ filled
      · exact fun _ => ok_
    dsimp only
    generalize (if flg.write then userEventWrite _ _ _ else (true, user_, peer_)) = result at *
    obtain ⟨fine, last, other⟩ := result
    cases fine with
    | false => exact .inr (err_out_ends last _)
    | true => exact .inl ⟨rfl, write_ok rfl⟩

def Healthy (recvs : List Recv) (sends : List Send) : Prop :=
  (∀ answer ∈ recvs, answer ≠ .eof ∧ answer ≠ .error) ∧ ∃ more rest, sends = .took more :: rest ∧ ∀ answer ∈ rest, answer ≠ .error

theorem read_alive (recvs : List Recv) (alive : ∀ answer ∈ recvs, answer ≠ .eof ∧ answer ≠ .error) (room : 0 < user.buffer.left) :
    (userEventRead user peer recvs).1 = true := by
  have ret := sock_read_alive _ alive _ [] (.inl (Nat.ne_of_gt room))
  rw [userEventRead, userSockRead, if_pos ok.first.opened]
  dsimp only
  rcases ret with again | ⟨bytes, some, count⟩
  · rw [again]
  · rw [count]
    dsimp only
    rw [if_neg some]

theorem write_alive (more : Nat) (rest : List Send) (alive : ∀ answer ∈ rest, answer ≠ .error) (filled : peer.buffer.data ≠ []) :
    (userEventWrite user peer (.took more :: rest)).1 = true := by
  obtain ⟨bytes, some, count⟩ := sock_send_alive more rest alive _ filled
  rw [userEventWrite, userSockSend, if_pos ok.first.opened]
  dsimp only
  rw [count]
  dsimp only
  rw [if_neg some]

theorem est_alive (flg : Interest) (recvs : List Recv) (sends : List Send) (for_ : PendingOk (some flg) user peer)
    (healthy : Healthy recvs sends) : (userEventEst user peer flg recvs sends).1 = .est := by
  obtain ⟨alive, more, rest, rfl, fine⟩ := healthy
  obtain ⟨room, filled⟩ := for_ flg rfl
  have read_ok : (if flg.read then userEventRead user peer recvs else (true, user, peer)).1 = true := by
    split
    · rename_i read
      exact read_alive ok _ alive (room read)
    · rfl
  have kept : PairOk (if flg.read then userEventRead user peer recvs else (true, user, peer)).2.1
        (if flg.read then userEventRead user peer recvs else (true, user, peer)).2.2 ∧
      (if flg.read then userEventRead user peer recvs else (true, user, peer)).2.2.buffer = peer.buffer := by
    split at read_ok
    · rename_i read
      rw [if_pos read]
      exact read_keeps ok _ read_ok
    · rename_i read
      rw [if_neg read]
      exact ⟨ok, rfl⟩
  rw [userEventEst]
  generalize (if flg.read then userEventRead user peer _ else (true, user, peer)) = result at *
  obtain ⟨done, user_, peer_⟩ := result
  obtain ⟨ok_, buffer⟩ := kept
  have write_ok : (if flg.write then userEventWrite user_ peer_ (.took more :: rest) else (true, user_, peer_)).1 = true := by
    split
    · rename_i write
      have some : peer_.buffer.data ≠ [] := by
        rw [show peer_.buffer = peer.buffer from buffer]
        exact filled write
      exact write_alive ok_ more rest fine some
    · rfl
  have going : done = true := read_ok
  subst going
  dsimp only
  rw [write_ok]
  rfl

end Pair

theorem within_wants (interest flags : Option Interest) (flg : Interest) (reported : within interest flags = some flg) :
    (flg.read = true → interest.any Interest.read = true) ∧ (flg.write = true → interest.any Interest.write = true) := by
  cases interest with
  | none => exact nomatch reported
  | some interest =>
    cases flags with
    | none => exact nomatch reported
    | some flags =>
      rw [within] at reported
      split at reported
      · rw [← Option.some.inj reported]
        exact ⟨fun both => (Bool.and_eq_true_iff.mp both).1, fun both => (Bool.and_eq_true_iff.mp both).1⟩
      · exact nomatch reported

section Session

variable (sess : FwdSession)

theorem shutdown_inv : FlowInv (fwdSessionShutdown sess) := ⟨.inr (.inr rfl), nofun, nofun, fun _ _ => rfl⟩

theorem set_here (side : Bool) (st : FwdStatus) (user peer : FwdUser) : (sess.set side st user peer).users side = user := if_pos rfl

theorem set_there (side : Bool) (st : FwdStatus) (user peer : FwdUser) : (sess.set side st user peer).users (!side) = peer := by
  refine if_neg ?_
  cases side <;> exact Bool.noConfusion

theorem event_est (side : Bool) (flg : Interest) (recvs : List Recv) (sends : List Send) (est : (sess.users side).st = .est) :
    userEventCb sess side flg recvs sends =
      outcome sess side (userEventEst (fwdEventTaken (sess.users side)) (sess.users !side) flg recvs sends) := by
  have status : (fwdEventTaken _).st = .est := est
  rw [userEventCb]
  rw [status]

theorem event_clean (side : Bool) (flg : Interest) (recvs : List Recv) (sends : List Send) (clean : (sess.users side).st = .clean) :
    userEventCb sess side flg recvs sends = outcome sess side ((userEventClean (fwdEventTaken (sess.users side)) flg sends).1,
        (userEventClean (fwdEventTaken (sess.users side)) flg sends).2, sess.users !side) := by
  have status : (fwdEventTaken _).st = .clean := clean
  rw [userEventCb]
  rw [status]

theorem outcome_down (side : Bool) (result : FwdStatus × FwdUser × FwdUser) (down : result.1 = .down) :
    outcome sess side result = fwdSessionShutdown (sess.set side result.1 result.2.1 result.2.2) := if_pos down

theorem outcome_up (side : Bool) (result : FwdStatus × FwdUser × FwdUser) (up : result.1 ≠ .down) :
    outcome sess side result = sess.set side result.1 result.2.1 result.2.2 := if_neg up

theorem pair_ok (inv : FlowInv sess) (est : sess.st = .est) (side : Bool) :
    PairOk (fwdEventTaken (sess.users side)) (sess.users !side) := by
  obtain ⟨st, opened, flow, _⟩ := inv.est est side
  have other := inv.est est !side
  rw [Bool.not_not] at other
  exact ⟨⟨st, opened, { flow with }, nofun⟩, ⟨other.st, other.opened, { other.flow with },
    other.pending⟩, rfl⟩

theorem set_est (side : Bool) (user peer : FwdUser) (ok : PairOk user peer) : FlowInv (sess.set side .est user peer) := by
  refine ⟨.inl rfl, fun _ other => ?_, nofun, nofun⟩
  by_cases here : other = side
  · rw [here, set_here, set_there]
    exact ok.first
  · have there : other = !side := by
      revert here
      cases other <;> cases side <;> simp
    rw [there, Bool.not_not, set_here, set_there]
    exact ok.second

theorem event_keeps (inv : FlowInv sess) (side : Bool) (flg : Interest) (reported : (sess.users side).pending = some flg) (recvs : List Recv)
    (sends : List Send) : FlowInv (userEventCb sess side flg recvs sends) := by
  rcases inv.known with est | clean | down
  · have ok := pair_ok sess inv est side
    have for_ : PendingOk (some flg) (fwdEventTaken (sess.users side)) (sess.users !side) := by
      intro flags held
      exact (inv.est est side).pending _ (reported.trans held)
    rw [event_est sess side flg _ _ (inv.est est side).st]
    rcases est_keeps ok flg _ _ for_ with ⟨status, kept⟩ | ⟨status, cleaning, gone, left⟩ | status
    · rw [outcome_up sess side _ (by rw [status]; exact nofun), status]
      exact set_est sess side _ _ kept
    · rw [outcome_up sess side _ (by rw [status]; exact nofun), status]
      refine ⟨.inr (.inl rfl), nofun, fun _ => ⟨!side, ?_, ?_⟩, nofun⟩
      · rw [set_there]
        exact cleaning
      · rw [Bool.not_not, set_here]
        exact ⟨gone, left⟩
    · rw [outcome_down sess side _ status]
      exact shutdown_inv _
  · obtain ⟨other, cleaning, gone, left⟩ := inv.clean clean
    have here : side = other := by
      by_contra apart
      have there : side = !other := by
        revert apart
        cases side <;> cases other <;> simp
      rw [there, left] at reported
      exact nomatch reported
    subst here
    obtain ⟨status, still⟩ := clean_ends (fwdEventTaken _) flg _ cleaning
    rw [event_clean sess side flg _ _ cleaning]
    rcases status with again | done
    · rw [outcome_up sess side _ (by rw [again]; exact nofun), again]
      refine ⟨.inr (.inl rfl), nofun, fun _ => ⟨side, ?_, ?_⟩, nofun⟩
      · rw [set_here]
        exact still
      · rw [set_there]
        exact ⟨gone, left⟩
    · rw [outcome_down sess side _ done]
      exact shutdown_inv _
  · have none_there := inv.down down side
    rw [none_there] at reported
    exact nomatch reported

theorem step_keeps (inv : FlowInv sess) (event : FwdStep) : FlowInv (fwdStep sess event) := by
  cases event with
  | wait flags =>
    rw [fwdStep]
    split
    · exact inv
    · rename_i up
      rw [fwdWait]
      split
      · refine ⟨inv.known, fun est side => ?_, fun clean => ?_, fun down => absurd down up⟩
        · obtain ⟨st, opened, flow, _⟩ := inv.est est side
          refine ⟨st, opened, { flow with }, fun flg reported => ?_⟩
          obtain ⟨read, write⟩ := within_wants _ _ flg reported
          exact ⟨fun wants => flow.reads (read wants), fun wants => flow.writes.mp (write wants)⟩
        · obtain ⟨side, cleaning, gone, _⟩ := inv.clean clean
          refine ⟨side, cleaning, gone, ?_⟩
          dsimp only
          rw [gone]
          rfl
      · exact inv
  | handle side recvs sends =>
    rw [fwdStep]
    cases reported : (sess.users side).pending with
    | none => exact inv
    | some flg => exact event_keeps sess inv side flg reported _ _
  | hangup side =>
    rw [fwdStep]
    split
    · exact inv
    · exact shutdown_inv sess
  | timeout => exact shutdown_inv sess

theorem run_inv (inv : FlowInv sess) (steps : List FwdStep) : FlowInv (run fwdStep sess steps) :=
  run_keeps _ _ _ sess _ inv (fun _ _ kept _ => step_keeps _ kept _)
    (all_steps_of_all _ _ sess _ fun _ _ => trivial)

end Session

def Fit (user : FwdUser) : Prop := 12 < user.buffer.left ∨ (user.buffer.data ≠ [] ∧ 0 < user.buffer.left)

theorem fit_iff (user : FwdUser) : Fit user ↔
    (fwdBufferPack user.buffer msgUserRegister 0).data ≠ [] ∧ 0 < (fwdBufferPack user.buffer msgUserRegister 0).left := by
  by_cases room : 12 < user.buffer.left
  · obtain ⟨data, left⟩ := pack_room _ _ 0 room
    rw [data, left]
    exact iff_of_true (.inl room) ⟨List.append_ne_nil_of_right_ne_nil _ nofun, by omega⟩
  · rw [pack_full _ _ 0 (Nat.le_of_not_lt room), Fit, or_iff_right room]

def FlowControlled (start : FwdSession) : Prop :=
  ∀ steps, (run fwdStep start steps).st = .est →
    (∀ side, FlowOk ((run fwdStep start steps).users side) ((run fwdStep start steps).users !side)) ∧
    (∀ side, PendingOk ((run fwdStep start steps).users side).pending ((run fwdStep start steps).users side)
      ((run fwdStep start steps).users !side)) ∧
    ∀ side recvs sends, Healthy recvs sends → (fwdStep (run fwdStep start steps) (.handle side recvs sends)).st = .est

section Start

variable (user1 user2 : FwdUser)

theorem start_users (side : Bool) : ((fwdSessionStEstablished user1 user2).users side).st = .est ∧
    ((fwdSessionStEstablished user1 user2).users side).interest = some ⟨true, true⟩ ∧
    ((fwdSessionStEstablished user1 user2).users side).pending = none ∧
    ((fwdSessionStEstablished user1 user2).users side).opened = (if side then user1 else user2).opened ∧
    ((fwdSessionStEstablished user1 user2).users side).buffer = fwdBufferPack (if side then user1 else user2).buffer msgUserRegister 0 ∧
    ((fwdSessionStEstablished user1 user2).users side).got = (if side then user1 else user2).got ∧
    ((fwdSessionStEstablished user1 user2).users side).put = (if side then user1 else user2).put := by
  cases side <;> exact ⟨rfl, rfl, rfl, rfl, rfl, rfl, rfl⟩

theorem start_inv (opened1 : user1.opened = true) (opened2 : user2.opened = true) (fit1 : Fit user1) (fit2 : Fit user2) :
    FlowInv (fwdSessionStEstablished user1 user2) := by
  have fit (side : Bool) : ((fwdSessionStEstablished user1 user2).users side).buffer.data ≠ [] ∧
      0 < ((fwdSessionStEstablished user1 user2).users side).buffer.left := by
    rw [(start_users _ _ side).2.2.2.2.1]
    cases side with
    | true => exact (fit_iff _).mp fit1
    | false => exact (fit_iff _).mp fit2
  refine ⟨.inl rfl, fun _ side => ?_, nofun, nofun⟩
  obtain ⟨st, interest, pending, opened, _⟩ := start_users _ _ side
  refine ⟨st, ?_, ⟨?_, fun _ => (fit side).2, fun empty => absurd empty (fit side).1⟩, fun flg held => nomatch pending.symm.trans held⟩
  · rw [opened]
    cases side with
    | true => exact opened1
    | false => exact opened2
  · rw [wantsWrite, interest]
    exact ⟨fun _ => (fit _).1, fun _ => rfl⟩

theorem fit_of_flow (flow : ∀ side, FlowOk ((fwdSessionStEstablished user1 user2).users side) ((fwdSessionStEstablished user1 user2).users !side)) :
    Fit user1 ∧ Fit user2 := by
  have fit (side : Bool) : ((fwdSessionStEstablished user1 user2).users side).buffer.data ≠ [] ∧
      0 < ((fwdSessionStEstablished user1 user2).users side).buffer.left := by
    have other := (flow !side).writes
    have own := (flow side).reads
    rw [Bool.not_not, wantsWrite, (start_users _ _ _).2.1] at other
    rw [wantsRead, (start_users _ _ side).2.1] at own
    exact ⟨other.mp rfl, own rfl⟩
  exact ⟨(fit_iff _).mpr (fit true), (fit_iff _).mpr (fit false)⟩

end Start

end Codec.Fwd
