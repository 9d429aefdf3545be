import Codec.Fwd.Session
import Codec.Lib.Runs

set_option autoImplicit false

namespace Codec.Fwd

def Refusal (reason : Int) : Prop := 0 < reason → reason.toNat % 65536 ≠ 0

structure Heard (user : FwdUser) : Prop where
  opened : user.opened = true
  put : user.put = []
  got : user.got.drop user.buffer.trash = user.buffer.data
  drained : user.buffer.trash ≤ user.got.length

structure Registered (user : FwdUser) : Prop extends Heard user where
  header : sizeofFwdRequest + 4 ≤ user.buffer.trash

theorem init_heard : Heard fwdUserInit := ⟨rfl, rfl, rfl, Nat.le_refl 0⟩

section User

variable (user : FwdUser)

theorem auth_cases (verdict : Verdict) :
    (∃ left reason, userEventAuth user verdict = userStClean left reason ∧ left.put = user.put ∧ Refusal reason) ∨
    ∃ len st, userEventAuth user verdict = { user with buffer := fwdBufferDrain user.buffer len, st := st } ∧
      len ≤ user.buffer.data.length ∧ (st = user.st ∨ (st = .watting ∧ sizeofFwdRequest + 4 ≤ len)) := by
  rw [userEventAuth]
  split
  · exact .inl ⟨user, _, rfl, rfl, fun _ => by decide⟩
  · rename_i whole
    have long : requestLen _ ≤ user.buffer.data.length := Nat.le_of_not_lt fun short => whole (.inr short)
    split
    · exact .inr ⟨requestLen _, user.st, rfl, long, .inl rfl⟩
    · rename_i value
      split
      · exact .inl ⟨user, _, rfl, rfl, fun _ => by decide⟩
      · cases verdict with
        | invalid => exact .inl ⟨_, _, rfl, rfl, fun _ => by decide⟩
        | refused => exact .inl ⟨_, _, rfl, rfl, fun _ => by decide⟩
        | bound => exact .inr ⟨requestLen _, .watting, rfl, long, .inr ⟨rfl, Nat.le_of_not_lt value⟩⟩

theorem accepted_cases (recvs : List Recv) (verdict : Verdict) :
    (∃ left reason, userEventAccepted user recvs verdict = userStClean left reason ∧ left.put = user.put ∧ Refusal reason) ∨
    ((userSockRead user recvs).1 ≠ .error ∧ (userEventAccepted user recvs verdict = (userSockRead user recvs).2 ∨
      userEventAccepted user recvs verdict = userEventAuth { (userSockRead user recvs).2 with st := .auth } verdict)) := by
  have put := (user_read_same user recvs).2.2.2
  rw [userEventAccepted]
  generalize userSockRead user _ = result at put ⊢
  obtain ⟨ret, read⟩ := result
  cases ret with
  | again => exact .inr ⟨nofun, .inl rfl⟩
  | error => exact .inl ⟨read, _, rfl, put, nofun⟩
  | count bytes =>
    dsimp only
    split
    · exact .inl ⟨read, _, rfl, put, nofun⟩
    · split
      · exact .inr ⟨nofun, .inl rfl⟩
      · split
        · exact .inl ⟨read, _, rfl, put, fun _ => by decide⟩
        · split
          · exact .inr ⟨nofun, .inl rfl⟩
          · exact .inr ⟨nofun, .inr rfl⟩

theorem read_heard (heard : Heard user) (recvs : List Recv) (fine : (userSockRead user recvs).1 ≠ .error) : Heard (userSockRead user recvs).2 := by
  obtain ⟨bytes, got, data, trash, _⟩ := user_read_data user _
  refine ⟨user_read_opened user _ heard.opened fine, (user_read_same user _).2.2.2.trans heard.put, ?_, ?_⟩
  · rw [got, data, trash, List.drop_append_of_le_length heard.drained, heard.got]
  · rw [got, trash, List.length_append]
    exact Nat.le_trans heard.drained (Nat.le_add_right _ _)

theorem drain_heard (heard : Heard user) (len : Nat) (inside : len ≤ user.buffer.data.length) (st : FwdStatus) :
    Heard { user with buffer := fwdBufferDrain user.buffer len, st := st } := by
  have trash : (fwdBufferDrain _ len).trash = user.buffer.trash + len := congrArg _ (Nat.min_eq_left inside)
  have long : user.buffer.data.length = user.got.length - user.buffer.trash := by rw [← heard.got, List.length_drop]
  refine ⟨heard.opened, heard.put, ?_, ?_⟩
  · rw [trash, drain_data, ← heard.got, List.drop_drop]
  · dsimp only
    rw [trash]
    have drained := heard.drained
    omega

theorem auth_heard (heard : Heard user) (verdict : Verdict) (kept : (userEventAuth user verdict).st ≠ .clean) :
    Heard (userEventAuth user verdict) ∧ ((userEventAuth user verdict).st = user.st ∨
      ((userEventAuth user verdict).st = .watting ∧ Registered (userEventAuth user verdict))) := by
  rcases auth_cases user _ with ⟨left, reason, refused, _⟩ | ⟨len, st, drained, inside, status⟩
  · rw [refused] at kept
    exact absurd rfl kept
  · rw [drained]
    have still := drain_heard user heard len inside st
    refine ⟨still, status.imp_right fun value => ⟨value.1, still, ?_⟩⟩
    exact Nat.le_trans value.2 (Nat.le_trans (Nat.le_of_eq (Nat.min_eq_left inside).symm) (Nat.le_add_left _ _))

theorem event_heard (heard : Heard user) (fresh : user.st = .accepted ∨ user.st = .auth) (recvs : List Recv) (verdict : Verdict)
    (kept : (userEventRegister user recvs verdict).st ≠ .clean) :
    Heard (userEventRegister user recvs verdict) ∧ ((userEventRegister user recvs verdict).st = .accepted ∨
      (userEventRegister user recvs verdict).st = .auth ∨
      ((userEventRegister user recvs verdict).st = .watting ∧ Registered (userEventRegister user recvs verdict))) := by
  rcases fresh with accepted | auth
  · have event : userEventRegister user recvs verdict = userEventAccepted user recvs verdict := by
      rw [userEventRegister, accepted]
    rw [event] at kept ⊢
    rcases accepted_cases user _ _ with ⟨left, reason, refused, _⟩ | ⟨fine, read | read⟩
    · rw [refused] at kept
      exact absurd rfl kept
    · rw [read]
      exact ⟨read_heard user heard _ fine, .inl ((user_read_same user _).1.trans accepted)⟩
    · have still := read_heard user heard _ fine
      have moved : Heard { (userSockRead user _).2 with st := .auth } := { still with }
      rw [read] at kept ⊢
      obtain ⟨later, status⟩ := auth_heard _ moved _ kept
      exact ⟨later, .inr status⟩
  · have event : userEventRegister user recvs verdict = userEventAuth user verdict := by
      rw [userEventRegister, auth]
    rw [event] at kept ⊢
    obtain ⟨later, status⟩ := auth_heard user heard _ kept
    exact ⟨later, .inr (status.imp_left fun same => same.trans auth)⟩

end User

theorem user_registered (reads : List (List Recv)) (user : FwdUser) (heard : Heard user) (fresh : user.st = .accepted ∨ user.st = .auth)
    (next : FwdUser) (registered : userRegister user reads = some next) : Registered next := by
  induction reads generalizing user with
  | nil => exact nomatch registered
  | cons recvs rest ih =>
    have event := event_heard user heard fresh recvs .bound
    rw [userRegister] at registered
    generalize userEventRegister user _ _ = later at event registered
    split at registered
    · rename_i watting
      rw [← Option.some.inj registered]
      obtain ⟨_, other | other | last⟩ := event (by rw [watting]; exact nofun)
      · exact nomatch watting.symm.trans other
      · exact nomatch watting.symm.trans other
      · exact last.2
    · exact nomatch registered
    · rename_i not_yet kept
      obtain ⟨still, accepted | auth | last⟩ := event kept
      · exact ih _ still (.inl accepted) registered
      · exact ih _ still (.inr auth) registered
      · exact absurd last.1 not_yet

open Codec.Lib

-- What happens to a connection that is not paired: events, its timer, an error
-- of the socket or the end of its session.
inductive ApplicantStep
  | event (flg : Interest) (recvs : List Recv) (verdict : Verdict) (sends : List Send)
  | timeout
  | hangup

def applicantStep (user : FwdUser) : ApplicantStep → FwdUser
  | .event flg recvs verdict sends => match user.st with
      | .accepted => if flg.read then userEventRegister user recvs verdict else user
      | .clean => { (userEventClean user flg sends).2 with st := (userEventClean user flg sends).1 }
      | _ => userEventRegister user recvs verdict
  | .timeout => match user.st with
      | .accepted => userStClean user (-fwdErrWaitTimeout)
      | .auth => userStClean user (-fwdErrHandleOvertime)
      | .watting => userStClean user (-fwdErrWaitTimeout)
      | _ => { user with st := .down }
  | .hangup => { user with st := .down }

def RefusedOnly (put : List UInt8) : Prop := ∃ status, status % 65536 ≠ 0 ∧ put <+: fwdRequest msgUserRegister status

def NothingLeft (user : FwdUser) : ApplicantStep → Prop
  | .event _ _ _ _ => user.st = .clean → user.put = [] → user.buffer.data = []
  | _ => True

structure RefuseInv (user : FwdUser) : Prop where
  silent : user.st ≠ .clean → user.st ≠ .down → user.put = []
  reason : Refusal user.reason
  begun : user.st = .clean → user.put ≠ [] → user.reason ≤ 0 ∧
    ∃ status, status % 65536 ≠ 0 ∧ user.put ++ user.buffer.data = fwdRequest msgUserRegister status
  only : RefusedOnly user.put

theorem refused_nothing : RefusedOnly [] := ⟨1, by decide, List.nil_prefix⟩

section User

variable (user : FwdUser)

theorem st_clean_inv (reason : Int) (refusal : Refusal reason) (put : user.put = []) : RefuseInv (userStClean user reason) := by
  refine ⟨fun other => absurd rfl other, refusal, fun _ some => absurd put some, ?_⟩
  rw [show (userStClean user _).put = [] from put]
  exact refused_nothing

theorem silent_inv (kept : user.st ≠ .clean) (put : user.put = []) (reason : Refusal user.reason) : RefuseInv user := by
  refine ⟨fun _ _ => put, reason, fun clean => absurd clean kept, ?_⟩
  rw [put]
  exact refused_nothing

theorem down_inv (inv : RefuseInv user) : RefuseInv { user with st := .down } :=
  ⟨fun _ other => absurd rfl other, inv.reason, nofun, inv.only⟩

theorem auth_inv (auth : user.st ≠ .clean) (put : user.put = []) (reason : Refusal user.reason) (verdict : Verdict) :
    RefuseInv (userEventAuth user verdict) := by
  rcases auth_cases user _ with ⟨left, why, refused, same, refusal⟩ | ⟨len, st, drained, _, status⟩
  · rw [refused]
    exact st_clean_inv left why refusal (same.trans put)
  · rw [drained]
    refine silent_inv _ ?_ put reason
    rcases status with same | watting
    · exact fun clean => auth (same.symm.trans clean)
    · exact fun clean => nomatch watting.1.symm.trans clean

theorem register_inv (inv : RefuseInv user) (recvs : List Recv) (verdict : Verdict) : RefuseInv (userEventRegister user recvs verdict) := by
  rw [userEventRegister]
  split
  · rename_i accepted
    have put := inv.silent (by rw [accepted]; rintro ⟨⟩) (by rw [accepted]; rintro ⟨⟩)
    obtain ⟨st, _, _, same⟩ := user_read_same user _
    have why : (userSockRead user recvs).2.reason = user.reason := by
      rw [userSockRead]
      split <;> rfl
    have refusal : Refusal (userSockRead user recvs).2.reason := by
      rw [why]
      exact inv.reason
    rcases accepted_cases user _ _ with ⟨left, reason, refused, silent, good⟩ | ⟨_, read | read⟩
    · rw [refused]
      exact st_clean_inv left _ good (silent.trans put)
    · rw [read]
      refine silent_inv _ ?_ (same.trans put) refusal
      rw [st, accepted]
      rintro ⟨⟩
    · rw [read]
      exact auth_inv { (userSockRead user _).2 with st := .auth } (by rintro ⟨⟩) (same.trans put) refusal _
  · rename_i auth
    have put := inv.silent (by rw [auth]; rintro ⟨⟩) (by rw [auth]; rintro ⟨⟩)
    refine auth_inv user ?_ put inv.reason _
    rw [auth]
    rintro ⟨⟩
  · exact inv

theorem pack_response (inv : RefuseInv user) (clean : user.st = .clean) (empty : user.put = [] → user.buffer.data = []) :
    user.put ++ (userPackReason user).buffer.data = [] ∨
      ∃ status, status % 65536 ≠ 0 ∧ user.put ++ (userPackReason user).buffer.data = fwdRequest msgUserRegister status := by
  rw [userPackReason]
  by_cases first : user.put = []
  · rw [first, List.nil_append]
    split
    · rename_i positive
      by_cases room : 12 < user.buffer.left
      · refine .inr ⟨user.reason.toNat, inv.reason positive, ?_⟩
        rw [(pack_room _ _ _ room).1, empty first, List.nil_append]
      · left
        rw [pack_full _ _ _ (Nat.le_of_not_lt room), empty first]
    · exact .inl (empty first)
  · obtain ⟨nothing, status, good, whole⟩ := inv.begun clean first
    rw [if_neg (Int.not_lt.mpr nothing)]
    exact .inr ⟨status, good, whole⟩

theorem clean_inv (inv : RefuseInv user) (clean : user.st = .clean) (empty : user.put = [] → user.buffer.data = []) (flg : Interest)
    (sends : List Send) : RefuseInv { (userEventClean user flg sends).2 with st := (userEventClean user flg sends).1 } := by
  obtain ⟨n, put, reason, rest⟩ := clean_puts user flg _
  obtain ⟨ends, _⟩ := clean_ends user flg _ clean
  have response := pack_response user inv clean empty
  have part : RefusedOnly (userEventClean user flg sends).2.put := by
    rw [put]
    rcases response with nothing | ⟨status, good, whole⟩
    · obtain ⟨none_, empty⟩ := List.append_eq_nil_iff.mp nothing
      rw [none_, empty, List.take_nil]
      exact refused_nothing
    · refine ⟨status, good, ?_⟩
      rw [← whole]
      exact (List.prefix_append_right_inj _).mpr (List.take_prefix n _)
  refine ⟨fun one other => absurd (ends.resolve_left one) other, fun positive => absurd positive (Int.not_lt.mpr reason), fun still some => ?_, part⟩
  refine ⟨reason, ?_⟩
  rw [rest still, put, List.append_assoc, List.take_append_drop]
  refine response.resolve_left fun nothing => some ?_
  obtain ⟨none_, empty⟩ := List.append_eq_nil_iff.mp nothing
  rw [put, none_, empty, List.take_nil]
  rfl

theorem applicant_keeps (inv : RefuseInv user) (step : ApplicantStep) (empty : NothingLeft user step) : RefuseInv (applicantStep user step) := by
  cases step with
  | event flg recvs verdict sends =>
    rw [applicantStep]
    split
    · split
      · exact register_inv user inv _ _
      · exact inv
    · rename_i clean
      exact clean_inv user inv clean (empty clean) flg _
    · exact register_inv user inv _ _
  | timeout =>
    have waits (st : FwdStatus) (is : user.st = st) (one : st ≠ .clean) (other : st ≠ .down) : user.put = [] :=
      inv.silent (is ▸ one) (is ▸ other)
    rw [applicantStep]
    split
    · rename_i st
      exact st_clean_inv user _ (fun _ => by decide) (waits _ st nofun nofun)
    · rename_i st
      exact st_clean_inv user _ (fun _ => by decide) (waits _ st nofun nofun)
    · rename_i st
      exact st_clean_inv user _ (fun _ => by decide) (waits _ st nofun nofun)
    · exact down_inv user inv
  | hangup => exact down_inv user inv

end User

theorem refusals (steps : List ApplicantStep) (empty : AllSteps applicantStep NothingLeft fwdUserInit steps) :
    RefusedOnly (run applicantStep fwdUserInit steps).put := by
  have start : RefuseInv _ := silent_inv fwdUserInit nofun rfl nofun
  exact (run_keeps _ _ _ _ _ start (fun user step inv allowed => applicant_keeps user inv step allowed)
    empty).only

instance decidableNothingLeft (user : FwdUser) : ∀ step, Decidable (NothingLeft user step)
  | .event _ _ _ _ => inferInstanceAs (Decidable (user.st = .clean → user.put = [] → user.buffer.data = []))
  | .timeout => isTrue trivial
  | .hangup => isTrue trivial

-- A ticket that no session has; the refusal leaves in two writes.
theorem refused_ticket_told : RefusedOnly (run applicantStep fwdUserInit
    [.event ⟨true, false⟩ [.data 0 [13, 0, 1, 0x15, 4, 0, 0, 0, 0, 0, 1, 7]] .refused [], .event ⟨false, true⟩ [] .bound [.took 3],
      .event ⟨false, true⟩ [] .bound [.took 3]]).put :=
  refusals _ (by decide)

theorem wrong_tag_echoed : ¬ ∀ steps, RefusedOnly (run applicantStep fwdUserInit steps).put := by
  intro all
  obtain ⟨status, _, part⟩ := all [.event ⟨true, false⟩ [.data 1 [2, 3, 4, 5, 6, 7, 8]] .bound [], .event ⟨false, true⟩ [] .bound [.took 15]]
  obtain ⟨rest, whole⟩ := part
  have first : some _ = some _ := congrArg List.head? whole
  exact absurd first (by decide)

end Codec.Fwd
