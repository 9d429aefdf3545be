import Codec.Lib.Loops
import Codec.Radius.Module
import Codec.Radius.StatusSpec

set_option autoImplicit false

namespace Codec.Radius

open Codec.Ems Codec.Lib

-- The callbacks that ra_recv_msg is called with.
inductive RecvCb
  | auth
  | acct
  | normal
  | acctStopped
deriving DecidableEq

def RecvCb.handle (cb : RecvCb) (env : Env) (which : Which) : UInt8 → Handle Ret :=
  match cb with
  | .auth => raAuthRsp env which
  | .acct => raAcctRsp
  | .normal => raNormalRsp
  | .acctStopped => raAcctStoppedRsp

inductive RaPc
  | recv
  | last
  | drain (again : Bool)
  | returned (ret : Ret)
  | fault
deriving DecidableEq

structure RaState where
  pc : RaPc
  cell : Cell
  recvs : Nat

-- Where a callback frees the device under the loop.
def Frees (env : Env) (cb : RecvCb) (code : UInt8) (dev : Device) : Prop :=
  match cb with
  | .auth => (code = pwAccessAccept → env.connect = false) ∧ dev.st ≠ .err
  | .acct => code ≠ pwAccountingResponse ∧ dev.st ≠ .acctStop ∧ (dev.reason = errNetwork ∨ dev.reason = errCannotConnect)
  | .normal => False
  | .acctStopped => dev.st ≠ .err

def Whole (buf : Buffer) : Prop := authHdrLen ≤ buf.len ∧ be16 buf.content 2 < buf.size ∧ be16 buf.content 2 ≤ buf.len

-- The packet in front is taken by rc_check_reply, and its callback frees the
-- device.
structure Doomed (env : Env) (which : Which) (cb : RecvCb) (dev : Device) (sh : Shared) : Prop where
  whole : Whole (dev.session which).bufIn
  passed : (rcCheckReply env sh dev.authOut (dev.session which).bufIn).1 = true
  frees : Frees env cb ((dev.session which).bufIn.content.getD 0 0) dev

section Machine

-- recv is what the calls of recv(2) answer, one after the other.
variable (env : Env) (which : Which) (cb : RecvCb) (recv : Nat → Recv) (state : RaState)

-- A handler and what comes behind it; a fault is an access to the freed device.
def raThen {α : Type} (body : Handle α) (next : α → RaPc) : RaState :=
  match body state.cell with
  | (.done value, cell) => { state with pc := next value, cell := cell }
  | (.fault _, cell) => { state with pc := .fault, cell := cell }

def raRead (dev : Device) : RaState :=
  let sess := dev.session which
  let stream := answersFor recv state.recvs sess.bufIn.left
  let res := sockRead sess.opened sess.bufIn stream
  { pc := if res.ret = .none ∧ res.buf.len > 0 then .last else .drain (res.ret ≠ .again)
    cell := { state.cell with dev := some (dev.setSession which { sess with opened := res.opened, bufIn := res.buf }) }
    recvs := state.recvs + (stream.length - res.stream.length) }

def raDrained (again : Bool) : Ret → RaPc
  | .ok => .drain again
  | .again => if again then .recv else .returned .ok
  | _ => .returned .err

-- ra_recv_msg by its calls of sess_recv and dev_preprocess.
def raStep : RaState :=
  match state.pc with
  | .recv => match state.cell.dev with
      | some dev => raRead which recv state dev
      | none => { state with pc := .fault }
  | .last => raThen state (devPreprocess env which (cb.handle env which)) .returned
  | .drain again => raThen state (devPreprocess env which (cb.handle env which)) (raDrained again)
  | _ => state

def raRecvStart (cell : Cell) : RaState := ⟨.recv, cell, 0⟩

def RaState.Returned (state : RaState) : Prop := ∃ ret, state.pc = .returned ret

def Spent : Prop := (state.pc = .recv ∨ state.pc = .drain true) ∧
  ∃ dev, state.cell.dev = some dev ∧ (dev.session which).bufIn.len = 0 ∧
    ((dev.session which).opened = false ∨ (dev.session which).bufIn.left = 0)

def Lost : Prop := state.pc = .fault ∨ Spent which state

-- The next step touches a freed device: it is gone, or the packet in front
-- frees it.
def Dangles : Prop := (∀ ret, state.pc ≠ .returned ret) ∧
  ∀ dev, state.cell.dev = some dev → state.pc ≠ .recv ∧ Doomed env which cb dev state.cell.sh

def Stuck : Prop := Dangles env which cb state ∨ Spent which state

def Asks (last : Nat) : Prop := state.pc = .recv → last ≤ state.recvs → ∀ bytes, recv state.recvs ≠ .data bytes

end Machine

section Callbacks

variable (which : Which) (dev : Device) (sh : Shared) {body : Handle Ret} {frees : Prop} (ret : Ret) (after : Shared)

theorem session_set (sess : Session) : (dev.setSession which sess).session which = sess := by cases which <;> rfl

-- A callback comes back. It has freed the device or not, and leaves the buffer
-- as it is or empty.
def Runs (body : Handle Ret) (frees : Prop) : Prop := ∃ ret cell, body ⟨some dev, sh⟩ = (.done ret, cell) ∧ (cell.dev = none ↔ frees) ∧
  ∀ next, cell.dev = some next → (next.session which).bufIn = (dev.session which).bufIn ∨ (next.session which).bufIn.len = 0

theorem runs_gone (eq : body ⟨some dev, sh⟩ = (.done ret, ⟨none, after⟩)) (holds : frees) : Runs which dev sh body frees :=
  ⟨ret, _, eq, iff_of_true rfl holds, fun _ none => nomatch none⟩

theorem runs_kept (next : Device) (eq : body ⟨some dev, sh⟩ = (.done ret, ⟨some next, after⟩)) (spares : ¬ frees)
    (same : (next.session which).bufIn = (dev.session which).bufIn) : Runs which dev sh body frees :=
  ⟨ret, _, eq, iff_of_false nofun spares, fun _ here => .inl (Option.some.inj here ▸ same)⟩

theorem runs_value (runs : Runs which dev sh body frees) : Runs which dev sh (do let _ ← body; pure .ok) frees := by
  obtain ⟨ret, cell, eq, rest⟩ := runs
  exact ⟨.ok, cell, by rw [Handler.bind_apply, eq]; rfl, rest⟩

theorem err_runs : Runs which dev sh changeErr (dev.st ≠ .err) := by
  by_cases ended : dev.st = .err
  · refine runs_kept which dev sh .ok sh dev ?_ (not_not.mpr ended) rfl
    simp only [changeErr, enter, Handler.bind_apply, get_dev_some, if_pos ended, Handler.pure_apply]
  · exact runs_gone which dev sh _ _ (change_err_eq dev sh ended) ended

theorem acct_runs : Runs which dev sh changeAcct False := by
  by_cases same : dev.st = .acct
  · exact runs_kept which dev sh _ _ _ (change_acct_same dev sh same) id rfl
  · exact runs_kept which dev sh _ _ _ (change_acct_eq dev sh same) id (by cases which <;> rfl)

theorem acct_stop_runs : Runs which dev sh changeAcctStop
    (dev.st ≠ .acctStop ∧ (dev.reason = errNetwork ∨ dev.reason = errCannotConnect)) := by
  by_cases same : dev.st = .acctStop
  · exact runs_kept which dev sh _ _ _ (change_acct_stop_same dev sh same) (fun both => both.1 same) rfl
  · by_cases lost : dev.reason = errNetwork ∨ dev.reason = errCannotConnect
    · exact runs_gone which dev sh _ _ (change_acct_stop_lost dev sh same lost) ⟨same, lost⟩
    · have fine := not_or.mp lost
      exact runs_kept which dev sh _ _ _ (change_acct_stop_eq dev sh same fine.1 fine.2) (fun both => lost both.2) (by cases which <;> rfl)

variable (env : Env) (cb : RecvCb) (code : UInt8)

theorem frees_session (sess : Session) : Frees env cb code (dev.setSession which sess) ↔ Frees env cb code dev := by cases which <;> rfl

theorem auth_runs : Runs which dev sh (raAuthRsp env which code) (Frees env .auth code dev) := by
  rw [raAuthRsp]
  by_cases accept : code = pwAccessAccept
  · rw [if_pos accept]
    by_cases connect : env.connect = true
    · have none : Frees env .auth code dev ↔ False := iff_of_false (fun frees => nomatch connect.symm.trans (frees.1 accept)) id
      rw [none]
      simp only [Runs, raStartToAcctUser, raConnectToAcctServer, if_pos connect, Handler.bind_apply, openSession, set_dev_some, set_shared_apply,
        raSendPortal, get_dev_some, raDeviceFirewallSetRules]
      obtain ⟨ret, cell, eq, iff, held⟩ := acct_runs which _ _
      exact ⟨ret, cell, eq, iff, fun next here => .inr ((held next here).elim (fun same => same ▸ by cases which <;> rfl) id)⟩
    · have every : Frees env .auth code dev ↔ dev.st ≠ .err := and_iff_right fun _ => Bool.eq_false_iff.mpr connect
      rw [every]
      simp only [Runs, raStartToAcctUser, raConnectToAcctServer, if_neg connect, Handler.bind_apply, set_dev_some]
      obtain ⟨ret, cell, eq, iff, held⟩ := err_runs which _ _
      exact ⟨ret, cell, eq, iff.trans (by cases which <;> rfl),
        fun next here => .inr ((held next here).elim (fun same => same ▸ by cases which <;> rfl) id)⟩
  · have every : Frees env .auth code dev ↔ dev.st ≠ .err := and_iff_right fun same => absurd same accept
    rw [if_neg accept, every]
    split
    · exact runs_value _ _ _ (err_runs _ _ sh)
    · exact runs_value _ _ _ (err_runs _ _ sh)

theorem handle_runs : Runs which dev sh (cb.handle env which code) (Frees env cb code dev) := by
  cases cb with
  | auth => exact auth_runs _ _ _ _ _
  | acct =>
    rw [RecvCb.handle, raAcctRsp]
    by_cases response : code = pwAccountingResponse
    · rw [if_pos response]
      have spares : ¬ Frees env .acct code dev := fun frees => frees.1 response
      rcases change_normal_eq { dev with reportPeriod := sh.ra.reportPeriod } sh with eq | ⟨_, eq⟩
      · refine runs_kept which dev sh .ok sh { dev with reportPeriod := sh.ra.reportPeriod, st := .normal, disconnectServer := reportRounds sh.ra }
          ?_ spares (by cases which <;> rfl)
        simp only [Handler.bind_apply, get_shared_apply, set_dev_some, eq, Handler.pure_apply]
      · refine runs_kept which dev sh .ok sh { dev with reportPeriod := sh.ra.reportPeriod, disconnectServer := reportRounds sh.ra }
          ?_ spares (by cases which <;> rfl)
        simp only [Handler.bind_apply, get_shared_apply, set_dev_some, eq, Handler.pure_apply]
    · have lost : Frees env .acct code dev ↔ _ := and_iff_right response
      rw [if_neg response, lost]
      exact runs_value _ _ _ (acct_stop_runs _ _ sh)
  | normal => exact runs_kept which dev sh _ _ _ rfl id rfl
  | acctStopped => exact err_runs _ _ sh

end Callbacks

section Read

variable (which : Which) (recv : Nat → Recv) (state : RaState) (dev : Device)

theorem read_eq (res : ReadResult)
    (same : sockRead (dev.session which).opened (dev.session which).bufIn (answersFor recv state.recvs (dev.session which).bufIn.left) = res) :
    raRead which recv state dev = ⟨if res.ret = .none ∧ res.buf.len > 0 then .last else .drain (res.ret ≠ .again),
      { state.cell with dev := some (dev.setSession which { dev.session which with opened := res.opened, bufIn := res.buf }) },
      state.recvs + ((dev.session which).bufIn.left + 1 - res.stream.length)⟩ := by
  rw [raRead]
  rw [same, answers_length]

theorem read_empty (res : ReadResult)
    (same : sockRead (dev.session which).opened (dev.session which).bufIn (answersFor recv state.recvs (dev.session which).bufIn.left) = res)
    (nothing : res.ret = .none) (empty : res.buf.len = 0) (done : res.opened = false ∨ res.buf.left = 0) :
    Spent which (raRead which recv state dev) := by
  rw [read_eq _ recv _ dev res same]
  refine ⟨.inr ?_, _, rfl, ?_, ?_⟩
  · rw [nothing, if_neg (by omega)]
    rfl
  · rw [session_set]
    exact empty
  · rw [session_set]
    exact done

theorem read_pc (pc : state.pc = .recv) (alive : state.cell.dev = some dev) (before : ¬ Spent which state)
    (behind : ¬ Spent which (raRead which recv state dev)) :
    (raRead which recv state dev).pc = .last ∨ (raRead which recv state dev).pc = .drain false ∨
      ((raRead which recv state dev).pc = .drain true ∧ state.recvs < (raRead which recv state dev).recvs ∧
        ∃ bytes, recv state.recvs = .data bytes) := by
  have spent (empty : (dev.session _).bufIn.len = 0)
      (none : (dev.session _).opened = false ∨ (dev.session _).bufIn.left = 0) : False :=
    before ⟨.inl pc, dev, alive, empty, none⟩
  cases opened : (dev.session _).opened with
  | false =>
    have same := sock_read_closed (dev.session which).bufIn (answersFor recv state.recvs (dev.session which).bufIn.left)
    rw [← opened] at same
    rw [read_eq _ recv _ dev _ same]
    exact .inl (if_pos ⟨rfl, Nat.pos_of_ne_zero fun empty => spent empty (.inl opened)⟩)
  | true =>
    by_cases full : (dev.session which).bufIn.left = 0
    · have same := sock_read_full _ (answersFor recv state.recvs (dev.session which).bufIn.left) full
      rw [← opened] at same
      rw [read_eq _ recv _ dev _ same]
      refine .inl (if_pos ⟨rfl, ?_⟩)
      rw [(write_nothing _).1]
      exact Nat.pos_of_ne_zero fun empty => spent empty (.inr full)
    have room : 0 < (dev.session _).bufIn.left := Nat.pos_of_ne_zero full
    obtain ⟨rest, answers⟩ := answers_cons recv _ _
    have length := answers_length recv state.recvs (dev.session which).bufIn.left
    cases answer : recv _ with
    | again =>
      have ret := sock_read_again _ rest room
      rw [← answer, ← answers, ← opened] at ret
      rw [read_eq _ recv _ dev _ rfl]
      rw [ret, if_neg fun both => nomatch both.1]
      exact .inr (.inl rfl)
    | failed =>
      have same := sock_read_failed _ rest room
      rw [← answer, ← answers, ← opened] at same
      have bytes : 0 < (dev.session _).bufIn.len :=
        Nat.pos_of_ne_zero fun empty => behind (read_empty _ recv _ dev _ same rfl empty (.inl rfl))
      rw [read_eq _ recv _ dev _ same]
      exact .inl (if_pos ⟨rfl, bytes⟩)
    | data bytes =>
      have taken := read_loop_takes (recv state.recvs) rest _ [] room
      have stream := sock_read_stream (dev.session which).bufIn (answersFor recv state.recvs (dev.session which).bufIn.left)
      rw [← answers, ← stream, ← opened] at taken
      rw [answers, List.length_cons] at length
      rw [read_eq _ recv _ dev _ rfl]
      dsimp only
      split
      · exact .inl rfl
      · by_cases again : (sockRead (dev.session which).opened (dev.session which).bufIn
            (answersFor recv state.recvs (dev.session which).bufIn.left)).ret = .again
        · refine .inr (.inl ?_)
          rw [again]
          rfl
        · refine .inr (.inr ⟨?_, by omega, bytes, rfl⟩)
          rw [decide_eq_true again]

end Read

section Drain

variable (env : Env) (which : Which) (cb : RecvCb)

def cellLen (cell : Cell) : Nat := match cell.dev with
  | some dev => (dev.session which).bufIn.len
  | none => 0

theorem cleared_len (buf : Buffer) (length : Nat) (empty : buf.len = 0) (some : 0 < length) :
    (((buf.seekRd length .cur).getD buf).refresh).len = 0 := by
  have fails : buf.seekRd length .cur = none := by
    unfold Buffer.seekRd
    exact dif_pos (.inl (by omega))
  rw [refresh_len, fails, Option.getD_none, empty]

theorem check_reply_passed (sh : Shared) (authOut : Option Request) (buf : Buffer) (passed : (rcCheckReply env sh authOut buf).1 = true) :
    20 ≤ be16 buf.content 2 ∧ (rcCheckReply env sh authOut buf).2.len = buf.len := by
  unfold rcCheckReply at passed ⊢
  cases authOut with
  | none => cases passed
  | some request =>
    dsimp only at passed ⊢
    split at passed
    · rename_i header
      rw [if_pos header]
      rw [rcCheckHeader, decide_eq_true_eq] at header
      exact ⟨header.1, rfl⟩
    · cases passed

theorem preprocess_spec (dev : Device) (sh : Shared) :
    (Doomed env which cb dev sh ∧ ∃ why after, devPreprocess env which (cb.handle env which) ⟨some dev, sh⟩ = (.fault why, after)) ∨
    (¬ Doomed env which cb dev sh ∧ ∃ ret after, devPreprocess env which (cb.handle env which) ⟨some dev, sh⟩ = (.done ret, after) ∧
      (ret = .ok → cellLen which after < (dev.session which).bufIn.len)) := by
  rw [devPreprocess, Handler.bind_apply, get_dev_some]
  dsimp only
  by_cases short : (dev.session which).bufIn.len < authHdrLen
  · rw [if_pos short]
    exact .inr ⟨fun bad => Nat.not_lt.mpr bad.whole.1 short, .again, _, rfl, by rintro ⟨⟩⟩
  by_cases large : be16 (dev.session which).bufIn.content 2 ≥ (dev.session which).bufIn.size
  · rw [if_neg short, if_pos large]
    exact .inr ⟨fun bad => Nat.not_le.mpr bad.whole.2.1 large, .insufficient, _, rfl, by rintro ⟨⟩⟩
  by_cases part : (dev.session which).bufIn.len < be16 (dev.session which).bufIn.content 2
  · rw [if_neg short, if_neg large, if_pos part]
    exact .inr ⟨fun bad => Nat.not_lt.mpr bad.whole.2.2 part, .again, _, rfl, by rintro ⟨⟩⟩
  rw [if_neg short, if_neg large, if_neg part, Handler.bind_apply]
  simp only [devProcessRsp, Handler.bind_apply, get_dev_some, get_shared_apply, setBufIn, set_dev_some]
  by_cases passed : (rcCheckReply env sh dev.authOut (dev.session which).bufIn).1 = true
  · obtain ⟨header, length⟩ := check_reply_passed env sh _ _ passed
    obtain ⟨ret, ⟨entry, shared⟩, ran, iff, held⟩ := handle_runs which (dev.setSession which
      _) sh env cb
      _
    have doomed : Doomed env which cb dev sh ↔ entry = none := by
      have frees : Frees env cb _ dev ↔ entry = none := (frees_session which dev env cb _ _).symm.trans iff.symm
      exact ⟨fun bad => frees.mp bad.frees,
        fun gone => ⟨⟨Nat.not_lt.mp short, Nat.not_le.mp large, Nat.not_lt.mp part⟩, passed, frees.mpr gone⟩⟩
    rw [if_pos passed, Handler.bind_apply, ran, doomed]
    cases entry with
    | none => exact .inl ⟨rfl, _, _, rfl⟩
    | some next =>
      refine .inr ⟨by rintro ⟨⟩, .ok, _, rfl, fun _ => ?_⟩
      rw [authHdrLen] at short
      show ((next.setSession _ _).session _).bufIn.len < _
      rw [session_set]
      rcases held next rfl with kept | empty
      · simp only [session_set] at kept
        rw [← kept] at length
        rw [consumed_len _ _ (by omega)]
        omega
      · rw [cleared_len _ _ empty (by omega)]
        omega
  · rw [if_neg passed]
    exact .inr ⟨fun bad => passed bad.passed, .err, _, rfl, by rintro ⟨⟩⟩

theorem preprocess_consumes (cell after : Cell) (done : devPreprocess env which (cb.handle env which) cell = (.done .ok, after)) :
    cellLen which after < cellLen which cell := by
  obtain ⟨entry, sh⟩ := cell
  cases entry with
  | none => exact nomatch done
  | some dev =>
    rcases preprocess_spec env which cb dev sh with ⟨_, why, cell, eq⟩ | ⟨_, ret, cell, eq, less⟩
    · exact nomatch eq.symm.trans done
    · obtain ⟨⟨⟩, rfl⟩ := Prod.mk.inj (eq.symm.trans done)
      exact less rfl

end Drain

section Faults

variable (env : Env) (which : Which) (cb : RecvCb) (recv : Nat → Recv)

theorem then_faults (state : RaState) (next : Ret → RaPc) (goes : ∀ ret, next ret ≠ .fault) (pc : state.pc ≠ .recv)
    (runs : ∀ ret, state.pc ≠ .returned ret) :
    (raThen state (devPreprocess env which (cb.handle env which)) next).pc = .fault ↔ Dangles env which cb state := by
  rw [raThen, Dangles, and_iff_right runs]
  obtain ⟨entry, sh⟩ := state.cell
  cases entry with
  | none => exact iff_of_true rfl fun _ same => nomatch same
  | some dev =>
    have only : (∀ found, some dev = some found → state.pc ≠ .recv ∧ Doomed env which cb found sh) ↔ Doomed env which cb dev sh :=
      ⟨fun all => (all dev rfl).2, fun bad _ same => Option.some.inj same ▸ ⟨pc, bad⟩⟩
    rw [only]
    rcases preprocess_spec env which cb dev sh with ⟨doomed, why, after, eq⟩ | ⟨spared, ret, after, eq, _⟩
    · rw [eq]
      exact iff_of_true rfl doomed
    · rw [eq]
      exact iff_of_false (goes ret) spared

theorem step_faults (state : RaState) (sound : state.pc ≠ .fault) : (raStep env which cb recv state).pc = .fault ↔ Dangles env which cb state := by
  cases pc : state.pc with
  | fault => exact absurd pc sound
  | returned ret =>
    rw [raStep, pc]
    exact iff_of_false sound fun dangles => dangles.1 ret pc
  | last =>
    rw [raStep, pc]
    exact then_faults env which cb state _ (fun _ => nofun) (by rw [pc]; nofun) (by rw [pc]; nofun)
  | drain again =>
    rw [raStep, pc]
    refine then_faults env which cb state _ (fun ret => ?_) (by rw [pc]; nofun) (by rw [pc]; nofun)
    cases ret <;> cases again <;> nofun
  | recv =>
    rw [raStep, pc]
    cases alive : state.cell.dev with
    | none => exact iff_of_true rfl ⟨by rw [pc]; nofun, fun _ same => nomatch alive.symm.trans same⟩
    | some dev =>
      refine iff_of_false ?_ fun dangles => (dangles.2 dev alive).1 pc
      simp only [raRead]
      split <;> nofun

theorem faults_iff (cell : Cell) : (∀ count, ((raStep env which cb recv)^[count] (raRecvStart cell)).pc ≠ .fault) ↔
    ∀ count, ¬ Dangles env which cb ((raStep env which cb recv)^[count] (raRecvStart cell)) := by
  constructor
  · intro sound count dangles
    refine sound (count + 1) ?_
    rw [Function.iterate_succ_apply', step_faults env which cb recv _ (sound count)]
    exact dangles
  · intro spared count
    induction count with
    | zero => exact nofun
    | succ count ih =>
      rw [Function.iterate_succ_apply', ne_eq, step_faults env which cb recv _ ih]
      exact spared count

end Faults

section Run

variable (env : Env) (which : Which) (cb : RecvCb) (recv : Nat → Recv)

theorem preprocess_empty (dev : Device) (sh : Shared) (empty : (dev.session which).bufIn.len = 0) :
    devPreprocess env which (cb.handle env which) ⟨some dev, sh⟩ = (.done .again, ⟨some dev, sh⟩) := by
  rw [devPreprocess, Handler.bind_apply, get_dev_some]
  dsimp only
  rw [empty, if_pos (by decide)]
  rfl

theorem lost_stays (state : RaState) (lost : Lost which state) : Lost which (raStep env which cb recv state) := by
  rcases lost with fault | ⟨pc, dev, alive, empty, none⟩
  · left
    rw [raStep, fault]
    exact fault
  · right
    rcases pc with reads | drains
    · rw [raStep, reads]
      rw [alive]
      cases opened : (dev.session _).opened with
      | false =>
        have same := sock_read_closed (dev.session which).bufIn (answersFor recv state.recvs (dev.session which).bufIn.left)
        rw [← opened] at same
        exact read_empty _ recv _ dev _ same rfl empty (.inl opened)
      | true =>
        have full : (dev.session which).bufIn.left = 0 := by
          rcases none with closed | full
          · exact nomatch opened.symm.trans closed
          · exact full
        have same := sock_read_full _ (answersFor recv state.recvs (dev.session which).bufIn.left) full
        rw [← opened] at same
        obtain ⟨len, left⟩ := write_nothing _
        exact read_empty _ recv _ dev _ same rfl (len.trans empty) (.inr (left.trans full))
    · have cell : state.cell = ⟨some dev, state.cell.sh⟩ := by rw [← alive]
      rw [raStep, drains]
      dsimp only
      rw [raThen, cell, preprocess_empty env _ cb dev _ empty]
      exact ⟨.inl rfl, dev, rfl, empty, none⟩

theorem recvs_grow (state : RaState) : state.recvs ≤ (raStep env which cb recv state).recvs := by
  have kept {α : Type} (body : Handle α) (next : α → RaPc) : state.recvs ≤ (raThen state body next).recvs := by
    unfold raThen
    split <;> exact Nat.le_refl _
  unfold raStep
  split
  · split
    · exact Nat.le_add_right _ _
    · exact Nat.le_refl _
  · exact kept _ _
  · exact kept _ _
  · exact Nat.le_refl _

theorem recvs_run (state : RaState) (count : Nat) : state.recvs ≤ ((raStep env which cb recv)^[count] state).recvs := by
  induction count generalizing state with
  | zero => exact Nat.le_refl _
  | succ count ih => exact (recvs_grow env _ cb recv _).trans (ih _)

theorem returned_rests (state : RaState) (returned : state.Returned) : raStep env which cb recv state = state := by
  obtain ⟨ret, pc⟩ := returned
  rw [raStep, pc]

def Lower : Nat × Nat → Nat × Nat → Prop := Prod.Lex (· < ·) (· < ·)

def raMeasure (last : Nat) (state : RaState) : Nat × Nat :=
  match state.pc with
  | .recv => (last - state.recvs + 1, 0)
  | .drain true => (last - state.recvs + 1, cellLen which state.cell + 1)
  | .drain false => (0, cellLen which state.cell + 1)
  | _ => (0, 0)

def Onward (last : Nat) (state : RaState) : Prop :=
  ∀ count, Asks recv ((raStep env which cb recv)^[count] state) last ∧ ¬ Lost which ((raStep env which cb recv)^[count] state)

theorem drain_lower (last : Nat) (state : RaState) (again : Bool) (pc : state.pc = .drain again)
    (sound : ¬ Lost which (raStep env which cb recv state)) :
    (raStep env which cb recv state).Returned ∨ Lower (raMeasure which last (raStep env which cb recv state)) (raMeasure which last state) := by
  have step : raStep env which cb recv state = raThen state (devPreprocess env which (cb.handle env which)) (raDrained again) := by
    rw [raStep, pc]
  rw [step] at sound ⊢
  cases ran : devPreprocess env _ _ _ with
  | mk outcome reached =>
    rw [raThen, ran] at sound ⊢
    cases outcome with
    | fault why => exact absurd (.inl rfl) sound
    | done ret =>
      cases ret with
      | err => exact .inl ⟨.err, rfl⟩
      | insufficient => exact .inl ⟨.err, rfl⟩
      | ok =>
        have less := preprocess_consumes env _ cb _ _ ran
        right
        unfold raMeasure
        rw [pc]
        cases again with
        | true => exact Prod.Lex.right _ (Nat.succ_lt_succ less)
        | false => exact Prod.Lex.right _ (Nat.succ_lt_succ less)
      | again =>
        cases again with
        | false => exact .inl ⟨.ok, rfl⟩
        | true =>
          right
          unfold raMeasure
          rw [pc]
          exact Prod.Lex.right _ (Nat.succ_pos _)

theorem recv_lower (last : Nat) (state : RaState) (pc : state.pc = .recv) (asks : Asks recv state last) (before : ¬ Lost which state)
    (behind : ¬ Lost which (raStep env which cb recv state)) :
    Lower (raMeasure which last (raStep env which cb recv state)) (raMeasure which last state) := by
  cases alive : state.cell.dev with
  | none =>
    refine absurd (.inl ?_) behind
    rw [raStep, pc]
    rw [alive]
  | some dev =>
    have step : raStep env which cb recv state = raRead which recv state dev := by
      rw [raStep, pc]
      rw [alive]
    rw [step] at behind ⊢
    have start : raMeasure which last state = (last - state.recvs + 1, 0) := by rw [raMeasure, pc]
    rw [start]
    rcases read_pc _ recv _ dev pc alive (fun spent => before (.inr spent)) (fun spent => behind (.inr spent)) with
      tail | drain | ⟨drain, more, bytes, answer⟩
    · rw [raMeasure, tail]
      exact Prod.Lex.left _ _ (Nat.succ_pos _)
    · rw [raMeasure, drain]
      exact Prod.Lex.left _ _ (Nat.succ_pos _)
    · have early : state.recvs < last := by
        by_contra late
        exact asks pc (Nat.le_of_not_lt late) _ answer
      rw [raMeasure, drain]
      exact Prod.Lex.left _ _ (by omega)

theorem onward_ends (last : Nat) (state : RaState) (onward : Onward env which cb recv last state) :
    Ends (raStep env which cb recv) RaState.Returned state := by
  refine ends_of_descent _ _ _ (WellFounded.prod_lex Nat.lt_wfRel.wf Nat.lt_wfRel.wf) _ (raMeasure which last) ?_
    _ onward
  intro state onward runs
  have next : Onward env _ cb recv last _ := fun count => onward (count + 1)
  have behind := (next 0).2
  have goes (lower : Lower (raMeasure which last (raStep env which cb recv state)) (raMeasure which last state)) :=
    Or.inr (a := (raStep env which cb recv state).Returned) (And.intro next lower)
  cases pc : state.pc with
  | returned ret => exact absurd ⟨ret, pc⟩ runs
  | fault => exact absurd (.inl pc) (onward 0).2
  | recv => exact goes (recv_lower env _ cb recv last _ pc (onward 0).1 (onward 0).2 behind)
  | drain again =>
    rcases drain_lower env _ cb recv last _ _ pc behind with returned | lower
    · exact .inl returned
    · exact goes lower
  | last =>
    left
    have step : raStep env which cb recv state = raThen state (devPreprocess env which (cb.handle env which)) .returned := by
      rw [raStep, pc]
    rw [step] at behind ⊢
    unfold raThen at behind ⊢
    split
    · exact ⟨_, rfl⟩
    · rename_i ran
      rw [ran] at behind
      exact absurd (.inl rfl) behind

theorem returned_stays (cell : Cell) (ends : Ends (raStep env which cb recv) RaState.Returned (raRecvStart cell)) (count : Nat) :
    ¬ Lost which ((raStep env which cb recv)^[count] (raRecvStart cell)) := by
  intro lost
  refine trapped _ _ _ (lost_stays env _ cb recv) ?_ ?_ _ _ lost ends
  · rintro state (fault | ⟨reads | drains, -⟩) ⟨ret, pc⟩
    · exact nomatch fault.symm.trans pc
    · exact nomatch reads.symm.trans pc
    · exact nomatch drains.symm.trans pc
  · intro state returned
    rw [returned_rests env _ cb recv _ returned]
    exact returned

theorem ends_asks (cell : Cell) (ends : Ends (raStep env which cb recv) RaState.Returned (raRecvStart cell)) :
    ∃ last, ∀ count, Asks recv ((raStep env which cb recv)^[count] (raRecvStart cell)) last := by
  obtain ⟨total, returned⟩ := ends
  refine ⟨((raStep env which cb recv)^[total] (raRecvStart cell)).recvs + 1, fun count pc late => ?_⟩
  rcases Nat.le_total _ _ with after | before
  · have rests : ∀ more, (raStep env _ cb recv)^[more] _ =
        (raStep env _ cb recv)^[total] _ := fun more =>
      Function.iterate_fixed (returned_rests env which cb recv _ returned) more
    have same := rests (count - total)
    rw [← Function.iterate_add_apply, Nat.sub_add_cancel after] at same
    obtain ⟨ret, done⟩ := returned
    rw [same, done] at pc
    exact nomatch pc
  · have grown := recvs_run env which cb recv ((raStep env which cb recv)^[count] (raRecvStart cell)) (total - count)
    rw [← Function.iterate_add_apply, Nat.sub_add_cancel before] at grown
    omega

theorem never_stuck_iff (cell : Cell) : (∀ count, ¬ Stuck env which cb ((raStep env which cb recv)^[count] (raRecvStart cell))) ↔
    ∀ count, ¬ Lost which ((raStep env which cb recv)^[count] (raRecvStart cell)) := by
  simp only [Stuck, Lost, not_or, forall_and]
  exact and_congr_left' (faults_iff env which cb recv cell).symm

theorem ra_recv_msg_ends_iff (cell : Cell) : (Ends (raStep env which cb recv) RaState.Returned (raRecvStart cell) ↔
      (∃ last, ∀ count, Asks recv ((raStep env which cb recv)^[count] (raRecvStart cell)) last) ∧
        ∀ count, ¬ Stuck env which cb ((raStep env which cb recv)^[count] (raRecvStart cell))) ∧
    ∀ before after, devPreprocess env which (cb.handle env which) before = (.done .ok, after) → cellLen which after < cellLen which before := by
  have stuck : (∀ count, ¬ Stuck env which cb _) ↔ ∀ count, ¬ Lost which _ := never_stuck_iff env which cb recv cell
  rw [stuck]
  refine ⟨⟨fun ends => ⟨ends_asks env _ cb recv cell ends, returned_stays env _ cb recv cell ends⟩, ?_⟩,
    preprocess_consumes env _ cb⟩
  rintro ⟨⟨last, asks⟩, sound⟩
  exact onward_ends env _ cb recv last _ fun count => ⟨asks _, sound _⟩

theorem failed_lost (dev : Device) (sh : Shared) (opened : (dev.session which).opened = true) (empty : (dev.session which).bufIn.len = 0)
    (room : 0 < (dev.session which).bufIn.left) (failed : recv 0 = .failed) :
    Lost which ((raStep env which cb recv)^[1] (raRecvStart ⟨some dev, sh⟩)) := by
  obtain ⟨rest, answers⟩ := answers_cons recv 0 _
  have same := sock_read_failed _ rest room
  rw [← failed, ← answers, ← opened] at same
  exact .inr (read_empty _ recv _ dev _ same rfl empty (.inl rfl))

def waitingDevice : Device :=
  { emsDeviceNew 1 [] [] [] [] 0 with made := true, st := .auth, sess := ⟨true, Buffer.init 1024, false⟩ }

def waitingCell : Cell := ⟨some waitingDevice, ⟨radiusInit, ⟨false, [], []⟩, [], [], 1, 0⟩⟩

theorem failed_recv_never_returns :
    ¬ ∀ env which cb recv cell, Ends (raStep env which cb recv) RaState.Returned (raRecvStart cell) := by
  intro claim
  have ends := claim ⟨true, true, 0, []⟩ .radius .auth (fun _ => .failed) waitingCell
  have room : (Buffer.init 1024).left = 1024 := by simp only [Buffer.left, Buffer.init, List.length_replicate, Nat.sub_zero]
  refine returned_stays _ _ _ _ _ ends 1 ?_
  exact failed_lost _ _ _ _ _ _ rfl rfl (Nat.lt_of_lt_of_eq (Nat.succ_pos 1023) room.symm) rfl

end Run

end Codec.Radius
