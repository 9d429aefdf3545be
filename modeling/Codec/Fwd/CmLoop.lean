import Codec.Fwd.CmWire
import Codec.Lib.Loops

set_option autoImplicit false

namespace Codec.Fwd

open Codec.Lib

inductive ReadPc
  | read (taken : Nat)
  | messages (retry : Bool)
  | ended
  | crashed
deriving DecidableEq

-- What the calls answer, each by how often it has been called before.
structure EstEnv where
  recv : Nat → Recv
  reply : Nat → CmReply

structure EstState where
  pc : ReadPc
  cm : FwdCm
  recvs : Nat
  replies : Nat

section Loop

variable (json : CmJson) (env : EstEnv) (state : EstState)

def estAgain (retry : Bool) : ReadPc := if retry then .read 0 else .ended

def estFail (cm : FwdCm) : EstState := { state with pc := .ended, cm := cmError cm }

-- One turn of fwd_sock_read, of which taken bytes are in the buffer.
def estRead (taken : Nat) : EstState :=
  let cm := state.cm
  let called := { state with recvs := state.recvs + 1 }
  match env.recv state.recvs with
  | .data first rest =>
    { called with
      pc := .read (taken + ((first :: rest).take cm.bufIn.left).length)
      cm := { cm with bufIn := cm.bufIn.put (first :: rest), heard := cm.heard ++ (first :: rest).take cm.bufIn.left } }
  | .again => { called with pc := if taken = 0 then .ended else .messages false }
  | .eof => estFail called cm
  | .error => estFail called (cmSockClose cm)

def estHandled (len cmd : Nat) (val : Option (List UInt8)) (ret : Int) : EstState :=
  { state with
    pc := if Crashes json cmd val then .crashed else state.pc
    cm := cmHandleMsg json state.cm len cmd val ret }

def estMessage (retry : Bool) : EstState :=
  if state.cm.bufIn.data.length < sizeofFwdRequest then { state with pc := estAgain retry }
  else
    let reply := env.reply state.replies
    let called := { state with replies := state.replies + 1 }
    match fwdBufferUnpack state.cm.bufIn.data reply.grant with
    | .message len cmd val => estHandled json called len cmd val reply.ret
    | _ => { called with pc := estAgain retry }

-- A step of cm_st_est on a READ event: a call of recv, or a message.
def estStep : EstState :=
  match state.pc with
  | .ended => state
  | .crashed => state
  | .read taken =>
    if state.cm.sock = 0 then estFail state state.cm
    else if state.cm.bufIn.left = 0 then
      if taken = 0 then estFail state state.cm else { state with pc := .messages true }
    else estRead env state taken
  | .messages retry => estMessage json env state retry

def EstState.Returned (state : EstState) : Prop := state.pc = .ended

def EstState.Over (state : EstState) : Prop := state.pc = .ended ∨ state.pc = .crashed

def ZeroFront (state : EstState) : Prop :=
  (∃ retry, state.pc = .messages retry) ∧ sizeofFwdRequest ≤ state.cm.bufIn.data.length ∧ requestLen state.cm.bufIn.data = 0 ∧
    requestCmd state.cm.bufIn.data ≠ msgCmTicketNew

def CrashFront (state : EstState) : Prop :=
  (∃ retry, state.pc = .messages retry) ∧ ∃ len cmd val,
    fwdBufferUnpack state.cm.bufIn.data (env.reply state.replies).grant = .message len cmd val ∧ Crashes json cmd val

def cmEstStart (cm : FwdCm) : EstState := ⟨.read 0, cm, 0, 0⟩

end Loop

section Stuck

variable (json : CmJson) (env : EstEnv)

theorem set_buf_in (cm : FwdCm) (flags : Interest) (stale : Bool) : (cmEventSet cm flags stale).bufIn = cm.bufIn := by
  unfold cmEventSet
  dsimp only
  split
  · rfl
  split <;> split <;> rfl

theorem ticket_buf_in (cm : FwdCm) (val : Option (List UInt8)) (ret : Int) : (cmMsgTicketNew json cm val ret).bufIn = cm.bufIn := by
  unfold cmMsgTicketNew
  split
  · rfl
  · exact set_buf_in _ _ _
  · exact set_buf_in _ _ _

theorem handled_data (state : EstState) (len cmd : Nat) (val : Option (List UInt8)) (ret : Int) :
    (estHandled json state len cmd val ret).cm.bufIn.data = state.cm.bufIn.data.drop len := by
  rw [estHandled, cmHandleMsg]
  dsimp only
  split
  · rw [ticket_buf_in]
    rfl
  · rfl

theorem header_short : 0 < sizeofFwdRequest + 4 := Nat.succ_pos _

theorem zero_unpacked (data : List UInt8) (grant : Bool) (whole : sizeofFwdRequest ≤ data.length) (zero : requestLen data = 0) :
    fwdBufferUnpack data grant = .message 0 (requestCmd data) none := by
  unfold fwdBufferUnpack
  rw [zero, if_neg (by omega), if_pos header_short]

theorem message_eq (state : EstState) (retry : Bool) (whole : sizeofFwdRequest ≤ state.cm.bufIn.data.length) (len cmd : Nat)
    (val : Option (List UInt8))
    (message : fwdBufferUnpack state.cm.bufIn.data (env.reply state.replies).grant = .message len cmd val) :
    estMessage json env state retry =
      estHandled json { state with replies := state.replies + 1 } len cmd val (env.reply state.replies).ret := by
  rw [estMessage, if_neg (Nat.not_lt_of_le whole)]
  dsimp only
  rw [message]

theorem zero_front_stays (state : EstState) (zero : ZeroFront state) : ZeroFront (estStep json env state) := by
  obtain ⟨⟨retry, pc⟩, whole, zero, other⟩ := zero
  have unpacked := zero_unpacked _ (env.reply state.replies).grant whole zero
  have step := message_eq json env state retry whole _ _ _ unpacked
  have data := handled_data json { state with replies := state.replies + 1 } 0 (requestCmd state.cm.bufIn.data) none
    (env.reply state.replies).ret
  rw [List.drop_zero] at data
  have still : (estHandled json _ 0 _ none
      (env.reply state.replies).ret).pc = state.pc := if_neg fun both => other both.1
  rw [estStep, pc]
  dsimp only
  rw [step, ZeroFront, data]
  exact ⟨⟨retry, still.trans pc⟩, whole, zero, other⟩

end Stuck

section Progress

variable (json : CmJson) (env : EstEnv) (last : Nat)

def Expects (state : EstState) : Prop := state.recvs ≤ last ∨ state.pc = .messages false ∨ state.pc = .ended

def pcRank : ReadPc → Nat
  | .ended => 0
  | .crashed => 0
  | .read 0 => 1
  | .messages _ => 2
  | .read (_ + 1) => 3

def estMeasure (state : EstState) : Nat :=
  (last + 1 - state.recvs) * 20000 + pcRank state.pc * 5000 + state.cm.bufIn.data.length

theorem data_small (buf : FwdBuffer) : buf.data.length ≤ 4096 := by
  have fits := buf.fits
  rw [fwdBufferDefaultSize] at fits
  omega

theorem read_goes_down (state : EstState) (taken : Nat) (more : state.recvs ≤ last) (stops : ∀ first rest, env.recv last ≠ .data first rest) :
    EstState.Over (estRead env state taken) ∨
      (Expects last (estRead env state taken) ∧ estMeasure last (estRead env state taken) < estMeasure last state) := by
  unfold estRead
  cases answer : env.recv _ with
  | eof => exact .inl (.inl rfl)
  | error => exact .inl (.inl rfl)
  | again =>
    by_cases first : taken = 0
    · exact .inl (.inl (if_pos first))
    · refine .inr ⟨.inr (.inl (if_neg first)), ?_⟩
      unfold estMeasure
      dsimp only
      rw [if_neg first, pcRank]
      omega
  | data first rest =>
    have unlike : state.recvs ≠ last := fun same => stops _ rest (same ▸ answer)
    refine .inr ⟨.inl (show state.recvs + 1 ≤ last by omega), ?_⟩
    have small := data_small (state.cm.bufIn.put (first :: rest))
    unfold estMeasure
    dsimp only
    have rank : pcRank (.read (taken + ((first :: rest).take state.cm.bufIn.left).length)) ≤ 3 := by
      unfold pcRank
      split <;> omega
    omega

theorem leaving_goes_down (state : EstState) (retry : Bool) (replies : Nat) (pc : state.pc = .messages retry) (expects : Expects last state) :
    EstState.Over { state with pc := estAgain retry, replies := replies } ∨
      (Expects last { state with pc := estAgain retry, replies := replies } ∧
        estMeasure last { state with pc := estAgain retry, replies := replies } < estMeasure last state) := by
  cases retry with
  | false => exact .inl (.inl rfl)
  | true =>
    refine .inr ⟨.inl ?_, ?_⟩
    · rcases expects with more | done | ended
      · exact more
      · exact nomatch pc.symm.trans done
      · exact nomatch pc.symm.trans ended
    · have ranks : pcRank (estAgain true) < pcRank state.pc := by
        rw [pc]
        decide
      unfold estMeasure
      dsimp only
      omega

theorem handled_goes_down (state : EstState) (len cmd : Nat) (val : Option (List UInt8)) (ret : Int)
    (fine : ¬ Crashes json cmd val) (expects : Expects last state) (some : len ≠ 0) (whole : len ≤ state.cm.bufIn.data.length) :
    Expects last (estHandled json { state with replies := state.replies + 1 } len cmd val ret) ∧
      estMeasure last (estHandled json { state with replies := state.replies + 1 } len cmd val ret) < estMeasure last state := by
  have data := handled_data json { state with replies := state.replies + 1 } len cmd val ret
  have same : (estHandled json { state with replies := state.replies + 1 } len cmd val ret).pc = state.pc := if_neg fine
  constructor
  · rw [Expects, same]
    exact expects
  · unfold estMeasure
    rw [data, same, List.length_drop]
    show (last + 1 - state.recvs) * 20000 + _ + _ < _
    dsimp only
    omega

theorem message_goes_down (state : EstState) (retry : Bool) (pc : state.pc = .messages retry) (expects : Expects last state)
    (nonzero : ¬ ZeroFront state) : EstState.Over (estMessage json env state retry) ∨
      (Expects last (estMessage json env state retry) ∧ estMeasure last (estMessage json env state retry) < estMeasure last state) := by
  have leaves (replies : Nat) := leaving_goes_down last _ _ replies pc expects
  by_cases short : state.cm.bufIn.data.length < sizeofFwdRequest
  · rw [estMessage, if_pos short]
    exact leaves _
  have header := Nat.le_of_not_lt short
  cases unpacked : fwdBufferUnpack _ _ with
  | incomplete =>
    rw [estMessage, if_neg short]
    dsimp only
    rw [unpacked]
    exact leaves _
  | err =>
    rw [estMessage, if_neg short]
    dsimp only
    rw [unpacked]
    exact leaves _
  | message len cmd val =>
    rw [message_eq json env state retry header len cmd val unpacked]
    by_cases crashes : Crashes json cmd val
    · exact .inl (.inr (if_pos crashes))
    · have whole := (unpack_bounds _ _ (by rw [unpacked]; exact nofun)).2
      have lenIs := unpack_len _ _ len cmd val unpacked
      have some : len ≠ 0 := by
        intro zero
        rw [lenIs] at zero
        have none_ := (zero_unpacked _ _ header zero).symm.trans unpacked
        obtain ⟨-, cmdIs, valIs⟩ := Unpacked.message.inj none_
        refine nonzero ⟨⟨retry, pc⟩, header, zero, fun ticket => crashes ⟨cmdIs.symm.trans ticket, ?_⟩⟩
        rw [← valIs]
        rfl
      exact .inr (handled_goes_down json last state len cmd val _ crashes expects some (lenIs ▸ whole))

theorem step_goes_down (stops : ∀ first rest, env.recv last ≠ .data first rest) (state : EstState) (expects : Expects last state)
    (nonzero : ¬ ZeroFront state) (runs : ¬ state.Over) : EstState.Over (estStep json env state) ∨
      (Expects last (estStep json env state) ∧ estMeasure last (estStep json env state) < estMeasure last state) := by
  unfold estStep
  cases pc : state.pc with
  | ended => exact absurd (.inl pc) runs
  | crashed => exact absurd (.inr pc) runs
  | messages retry => exact message_goes_down json env last _ _ pc expects nonzero
  | read taken =>
    have more : state.recvs ≤ last := by
      rcases expects with more | done | done
      · exact more
      · exact nomatch pc.symm.trans done
      · exact nomatch pc.symm.trans done
    dsimp only
    by_cases closed : state.cm.sock = 0
    · rw [if_pos closed]
      exact .inl (.inl rfl)
    rw [if_neg closed]
    by_cases full : state.cm.bufIn.left = 0
    · rw [if_pos full]
      by_cases first : taken = 0
      · rw [if_pos first]
        exact .inl (.inl rfl)
      · rw [if_neg first]
        refine .inr ⟨.inl more, ?_⟩
        have ranks : pcRank (.messages true) < pcRank state.pc := by
          rw [pc]
          cases taken with
          | zero => exact absurd rfl first
          | succ taken => exact show 2 < 3 by decide
        unfold estMeasure
        dsimp only
        omega
    · rw [if_neg full]
      exact read_goes_down env last _ _ more stops

end Progress

section Run

variable (json : CmJson) (env : EstEnv)

theorem over_stays (state : EstState) (past : state.Over) : estStep json env state = state := by
  rw [estStep]
  rcases past with done | crashed
  · rw [done]
  · rw [crashed]

theorem never_ends (cm : FwdCm) (count : Nat) (zero : ZeroFront ((estStep json env)^[count] (cmEstStart cm))) :
    ¬ Ends (estStep json env) EstState.Over (cmEstStart cm) := by
  refine trapped _ _ _ (zero_front_stays json env) ?_ ?_ _ _ zero
  · rintro state ⟨⟨retry, pc⟩, -⟩ (done | crashed)
    · exact nomatch pc.symm.trans done
    · exact nomatch pc.symm.trans crashed
  · intro state done
    rw [over_stays json env state done]
    exact done

theorem nonzero_ends (cm : FwdCm) (last : Nat) (stops : ∀ first rest, env.recv last ≠ .data first rest)
    (nonzero : ∀ count, ¬ ZeroFront ((estStep json env)^[count] (cmEstStart cm))) : Ends (estStep json env) EstState.Over (cmEstStart cm) := by
  refine ends_of_measure _ _
    (fun state => Expects last state ∧ ∀ count, ¬ ZeroFront ((estStep json env)^[count] state)) (estMeasure last) ?_ _
    ⟨.inl (Nat.zero_le last), nonzero⟩
  intro state kept runs
  rcases step_goes_down json env last stops _ kept.1 (kept.2 0) runs with ended | ⟨expects, less⟩
  · exact .inl ended
  · exact .inr ⟨⟨expects, fun count => kept.2 (count + 1)⟩, less⟩

theorem crash_front_crashes (state : EstState) (crash : CrashFront json env state) : (estStep json env state).pc = .crashed := by
  obtain ⟨⟨retry, pc⟩, len, cmd, val, message, crashes⟩ := crash
  have whole := (unpack_bounds _ _ (by rw [message]; exact nofun)).1
  rw [estStep, pc]
  dsimp only
  rw [message_eq json env state retry whole len cmd val message]
  exact if_pos crashes

theorem crash_not_returned (cm : FwdCm) (count : Nat) (crash : CrashFront json env ((estStep json env)^[count] (cmEstStart cm))) :
    ¬ Ends (estStep json env) EstState.Returned (cmEstStart cm) := by
  refine trapped _ _ (fun state => state.pc = .crashed) ?_ ?_ ?_ _ (count + 1) ?_
  · intro state crashed
    rw [over_stays json env state (.inr crashed)]
    exact crashed
  · intro state crashed returned
    exact nomatch crashed.symm.trans returned
  · intro state returned
    rw [over_stays json env state (.inl returned)]
    exact returned
  · rw [Function.iterate_succ_apply']
    exact crash_front_crashes json env _ crash

-- Only a message at the front of the buffer crashes the loop.
theorem step_not_crashed (state : EstState) (fine : state.pc ≠ .crashed) (none_ : ¬ CrashFront json env state) :
    (estStep json env state).pc ≠ .crashed := by
  rw [estStep]
  cases pc : state.pc with
  | ended => exact fun crashed => fine crashed
  | crashed => exact absurd pc fine
  | read taken =>
    dsimp only
    split
    · exact nofun
    split
    · split <;> exact nofun
    · rw [estRead]
      split
      · exact nofun
      · split <;> exact nofun
      · exact nofun
      · exact nofun
  | messages retry =>
    have leaves : estAgain retry ≠ .crashed := by cases retry <;> exact nofun
    dsimp only
    rw [estMessage]
    split
    · exact leaves
    dsimp only
    split
    · rename_i len cmd val message
      have stays : (estHandled json { state with replies := state.replies + 1 } len cmd val (env.reply state.replies).ret).pc = state.pc :=
        if_neg fun crashes => none_ ⟨⟨retry, pc⟩, len, cmd, val, message, crashes⟩
      rw [stays]
      exact fine
    · exact leaves

theorem cm_st_est_ends_iff (cm : FwdCm) (stops : ∃ last, ∀ first rest, env.recv last ≠ .data first rest) :
    (Ends (estStep json env) EstState.Over (cmEstStart cm) ↔
      ∀ count, ¬ ZeroFront ((estStep json env)^[count] (cmEstStart cm))) ∧
    (Ends (estStep json env) EstState.Returned (cmEstStart cm) ↔
      ∀ count, ¬ ZeroFront ((estStep json env)^[count] (cmEstStart cm)) ∧
        ¬ CrashFront json env ((estStep json env)^[count] (cmEstStart cm))) := by
  have past : Ends (estStep json env) EstState.Over (cmEstStart cm) ↔
      ∀ count, ¬ ZeroFront ((estStep json env)^[count] (cmEstStart cm)) := by
    constructor
    · intro ends count zero
      exact never_ends json env cm _ zero ends
    · obtain ⟨last, stops⟩ := stops
      exact nonzero_ends json env cm last stops
  refine ⟨past, fun returned count => ⟨?_, ?_⟩, fun fine => ?_⟩
  · obtain ⟨last, done⟩ := returned
    exact past.mp ⟨last, .inl done⟩ count
  · exact fun crash => crash_not_returned json env cm count crash returned
  · obtain ⟨last, done⟩ := past.mpr fun count => (fine count).1
    have running (count : Nat) : ((estStep json env)^[count] (cmEstStart cm)).pc ≠ .crashed := by
      induction count with
      | zero => exact nofun
      | succ count ih =>
        rw [Function.iterate_succ_apply']
        exact step_not_crashed json env _ ih (fine count).2
    exact ⟨last, done.resolve_right (running last)⟩

end Run

section Silent

-- A value that is no json.
def emptyJson : CmJson := ⟨[], fun _ => [], fun _ => .invalid⟩

def silentEnv : List UInt8 → EstEnv
  | [] => ⟨fun _ => .again, fun _ => ⟨true, 0⟩⟩
  | first :: rest => ⟨fun index => if index = 0 then .data first rest else .again, fun _ => ⟨true, 0⟩⟩

def estCm : FwdCm := { fwdCmInit with st := .est, sock := 5, eventFd := 5, interest := some ⟨true, false⟩ }

-- A heartbeat and a ticket.
def twoMessages : List UInt8 := [0, 8, 0, 1, 21, 6, 0, 0, 0, 13, 0, 1, 21, 3, 0, 0, 0, 0, 0, 1, 7]

theorem two_messages_end : Ends (estStep emptyJson (silentEnv twoMessages)) EstState.Returned (cmEstStart estCm) ∧
    ∀ count, ¬ ZeroFront ((estStep emptyJson (silentEnv twoMessages))^[count] (cmEstStart estCm)) ∧
      ¬ CrashFront emptyJson (silentEnv twoMessages) ((estStep emptyJson (silentEnv twoMessages))^[count] (cmEstStart estCm)) := by
  have returns : Ends (estStep emptyJson (silentEnv twoMessages)) EstState.Returned (cmEstStart estCm) := ⟨5, rfl⟩
  exact ⟨returns, (cm_st_est_ends_iff _ (silentEnv twoMessages) estCm ⟨1, nofun⟩).2.mp returns⟩

theorem zero_header_never_ends : (∀ index, 0 < index → (silentEnv [0, 0, 0, 0, 0, 0, 0, 0]).recv index = .again) ∧
    ¬ Ends (estStep emptyJson (silentEnv [0, 0, 0, 0, 0, 0, 0, 0])) EstState.Over (cmEstStart estCm) := by
  constructor
  · intro index later
    exact if_neg (Nat.ne_of_gt later)
  · exact never_ends _ _ _ 2 ⟨⟨false, rfl⟩, by decide, by decide, by decide⟩

end Silent

end Codec.Fwd
