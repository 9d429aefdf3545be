import Codec.Fwd.Cm
import Codec.Lib.Runs

set_option autoImplicit false

namespace Codec.Fwd

open Codec.Lib

structure Linked (cm : FwdCm) : Prop where
  st : cm.st = .est
  error : cm.error = false
  interest : cm.interest ≠ none
  event : cm.eventFd = cm.sock
  sock : cm.sock ≠ 0
  polled : cm.polled = [cm.sock]

structure Lost (cm : FwdCm) : Prop where
  st : cm.st = .err
  interest : cm.interest = none
  sock : cm.sock = 0
  polled : cm.polled = []
  timer : cm.timer = true

def Kept (cm next : FwdCm) : Prop := (Linked next ∧ next.timer = cm.timer) ∨ Lost next

theorem st_err_lost (cm : FwdCm) (polled : cm.polled = [] ∨ (cm.interest ≠ none ∧ cm.polled = [cm.eventFd])) : Lost (cmError cm) := by
  have cancelled : (cmEventCancel { cm with st := .err }).polled = [] ∧ (cmEventCancel { cm with st := .err }).interest = none := by
    rw [cmEventCancel]
    split
    · rename_i none_
      exact ⟨polled.resolve_right fun watched => watched.1 none_, none_⟩
    · refine ⟨?_, rfl⟩
      rcases polled with empty | ⟨_, watched⟩
      · simp [empty]
      · simp [watched]
  have closed : (cmSockClose (cmEventCancel { cm with st := .err })).polled = [] := by
    rw [cmSockClose]
    rw [cancelled.1]
    split <;> rfl
  refine ⟨?_, cancelled.2, rfl, closed, rfl⟩
  rw [cmError, cmStErr, cmEventCancel]
  split <;> rfl

section Linked

variable {cm : FwdCm} (linked : Linked cm)

include linked

theorem linked_set (flags : Interest) (stale : Bool) : Linked (cmEventSet cm flags stale) ∧ (cmEventSet cm flags stale).timer = cm.timer := by
  have there : cm.eventFd ∈ cm.polled := by
    rw [linked.polled, linked.event]
    exact List.mem_singleton.mpr rfl
  have own : cm.eventFd = cm.sock ∧ cm.sock ≠ 0 := ⟨linked.event, linked.sock⟩
  have some : (cm.interest.isSome == decide (cm.eventFd ∈ cm.polled)) = true := by
    rw [decide_eq_true there, Option.isSome_iff_ne_none.mpr linked.interest]
    rfl
  rw [cmEventSet]
  split
  · exact ⟨linked, rfl⟩
  · rw [if_pos some]
    exact ⟨⟨linked.st, rfl, nofun, linked.event, linked.sock, linked.polled⟩, rfl⟩

theorem linked_send (tag st : Nat) (fill : Nat → Option (List UInt8)) (stale : Bool) :
    Linked (cmSend cm tag st fill stale) ∧ (cmSend cm tag st fill stale).timer = cm.timer := by
  have packed : Linked { cm with bufOut := fwdBufferPackFill cm.bufOut tag st fill } := { linked with }
  exact linked_set packed _ _

theorem linked_error : Lost (cmError cm) := by
  refine st_err_lost cm (.inr ⟨linked.interest, ?_⟩)
  rw [linked.polled, linked.event]

theorem linked_closed : Lost (cmError (cmSockClose cm)) := by
  refine st_err_lost _ (.inl ?_)
  rw [cmSockClose]
  rw [if_neg linked.sock, linked.polled]
  simp

theorem linked_new (json : CmJson) (val : Option (List UInt8)) (ret : Int) :
    Linked (cmMsgTicketNew json cm val ret) ∧ (cmMsgTicketNew json cm val ret).timer = cm.timer := by
  have noted (event : CmEvent) : Linked (cmNote cm event) := { linked with }
  rw [cmMsgTicketNew]
  split
  · exact ⟨{ linked with }, rfl⟩
  · exact linked_send (noted _) _ _ _ _
  · exact linked_send (noted _) _ _ _ _

theorem linked_message (json : CmJson) (len cmd : Nat) (val : Option (List UInt8)) (ret : Int) :
    Linked (cmHandleMsg json cm len cmd val ret) ∧ (cmHandleMsg json cm len cmd val ret).timer = cm.timer := by
  have drained : Linked { cm with bufIn := fwdBufferRefresh (fwdBufferDrain cm.bufIn len) } := { linked with }
  rw [cmHandleMsg]
  split
  · exact linked_new drained json val ret
  · exact ⟨drained, rfl⟩

end Linked

theorem linked_msgs (json : CmJson) (fuel : Nat) (cm : FwdCm) (linked : Linked cm) (replies : List CmReply) :
    Linked (cmHandleMsgs json fuel cm replies).1 ∧ (cmHandleMsgs json fuel cm replies).1.timer = cm.timer := by
  induction fuel generalizing cm replies with
  | zero => exact ⟨linked, rfl⟩
  | succ fuel ih =>
    rw [cmHandleMsgs]
    split
    · rename_i len cmd val _
      obtain ⟨handled, timer⟩ := linked_message linked json len cmd val _
      dsimp only
      split
      · exact ⟨handled, timer⟩
      · obtain ⟨last, same⟩ := ih _ handled _
        exact ⟨last, same.trans timer⟩
    · exact ⟨linked, rfl⟩

theorem linked_read (json : CmJson) (reads : List (List Recv)) (cm : FwdCm) (linked : Linked cm) (replies : List CmReply) :
    Kept cm (cmEstRead json cm replies reads) := by
  induction reads generalizing cm replies with
  | nil =>
    rw [cmEstRead]
    split
    · exact .inr (linked_error linked)
    · exact .inl ⟨linked, rfl⟩
  | cons recvs reads ih =>
    have read : Linked { cm with bufIn := (fwdSockRead recvs cm.bufIn []).2.1, heard := cm.heard ++ (fwdSockRead recvs cm.bufIn []).2.2 } :=
      { linked with }
    rw [cmEstRead, cmSockRead, if_neg linked.sock]
    generalize fwdSockRead _ _ [] = result at read ⊢
    obtain ⟨ret, bufIn, taken⟩ := result
    cases ret with
    | again => exact .inl ⟨read, rfl⟩
    | error => exact .inr (linked_closed read)
    | count bytes =>
      dsimp only
      split
      · exact .inr (linked_error read)
      · obtain ⟨next, timer⟩ := linked_msgs json _ _ read _
        split
        · rcases ih _ next _ with ⟨last, same⟩ | lost
          · exact .inl ⟨last, same.trans timer⟩
          · exact .inr lost
        · exact .inl ⟨next, timer⟩

theorem linked_est (json : CmJson) (cm : FwdCm) (linked : Linked cm) (flgs : Interest) (reads : List (List Recv)) (sends : List Send)
    (replies : List CmReply) : Kept cm (cmStEst json cm flgs reads sends replies) := by
  rw [cmStEst]
  split
  · have sent : Linked { cm with bufOut := sentFrom cm.bufOut (fwdSockSend sends cm.bufOut.data []).1,
                                 sent := cm.sent ++ (fwdSockSend sends cm.bufOut.data []).2 } :=
      { linked with }
    rw [cmSockSend, if_neg linked.sock]
    generalize fwdSockSend _ _ [] = result at sent ⊢
    obtain ⟨ret, bytes⟩ := result
    have rest (kept : Linked { cm with bufOut := sentFrom cm.bufOut ret, sent := cm.sent ++ bytes }) : Kept cm
        (if (sentFrom cm.bufOut ret).data = [] then
          { cmEventSet { cm with bufOut := sentFrom cm.bufOut ret, sent := cm.sent ++ bytes } ⟨true, false⟩ false with
            bufOut := fwdBufferRefresh (cmEventSet { cm with bufOut := sentFrom cm.bufOut ret, sent := cm.sent ++ bytes } ⟨true, false⟩ false).bufOut }
        else { cm with bufOut := sentFrom cm.bufOut ret, sent := cm.sent ++ bytes }) := by
      split
      · obtain ⟨set, timer⟩ := linked_set kept _ _
        exact .inl ⟨{ set with }, timer⟩
      · exact .inl ⟨kept, rfl⟩
    cases ret with
    | error => exact .inr (linked_closed sent)
    | again => exact rest sent
    | count _ => exact rest sent
  · split
    · exact linked_read json _ cm linked _
    · exact .inl ⟨linked, rfl⟩

-- A connection comes about at once or not at all, and epoll does not take the
-- event under the number of an earlier connection.
def PromptConnect (cm : FwdCm) (stale : Bool) : Connect → Prop
  | .immediate fd => stale = true → cm.eventFd = fd
  | .progress _ => False
  | _ => True

def Prompt (cm : FwdCm) : CmStep → Prop
  | .timeout stale connect => cm.st = .err → PromptConnect cm stale connect
  | .fired _ stale => cm.st = .err → stale = false
  | _ => True

def Alive (json : CmJson) (cm : FwdCm) : Prop := cm.st ≠ .stop →
  cm.timer = true ∧ (cmTimeoutHandler json cm.st).isSome = true ∧ (cm.st = .init ∨ cm.st = .est → cm.sock ≠ 0 ∧ cm.sock ∈ cm.polled)

def AliveInv (cm : FwdCm) : Prop := cm.st = .stop ∨ (Linked cm ∧ cm.timer = true) ∨ Lost cm

theorem immediate_linked (json : CmJson) (cm : FwdCm) (interest : cm.interest = none) (sock : cm.sock = 0) (polled : cm.polled = []) (fd : Nat)
    (positive : fd ≠ 0) (stale : Bool) (prompt : stale = true → cm.eventFd = fd) :
    Linked (fwdCmSetevent { cmSendEarly json cm fd stale with st := .est } fd stale [.registered]) := by
  have unset : ¬ cm.interest = some readWrite := by
    rw [interest]
    exact nofun
  have foreign : ¬ (cm.eventFd = cm.sock ∧ cm.sock ≠ 0) := fun own => own.2 sock
  by_cases same : cm.eventFd = fd
  · have early : cmSendEarly json cm fd stale = { cm with
        bufOut := fwdBufferPackFill cm.bufOut msgCmReg 0 (cmSetReginfo json), interest := some readWrite, error := false, polled := [fd] } := by
      rw [cmSendEarly, cmSend, cmEventSet]
      rw [if_neg unset, if_neg foreign, if_pos (by simp [same]), polled, if_neg List.not_mem_nil, same]
    rw [early, fwdCmSetevent, cmEventSet, if_pos rfl]
    exact ⟨rfl, rfl, nofun, rfl, positive, rfl⟩
  · have refused : stale = false := by
      cases stale with
      | false => rfl
      | true => exact absurd (prompt rfl) same
    have early : cmSendEarly json cm fd stale = { cm with bufOut := fwdBufferPackFill cm.bufOut msgCmReg 0 (cmSetReginfo json) } := by
      rw [cmSendEarly, cmSend, cmEventSet]
      rw [if_neg unset, if_neg foreign, if_neg (by simp [same, refused])]
    rw [early, fwdCmSetevent, cmEventSet]
    rw [if_neg unset, interest, polled, if_pos (by simp [positive]), if_neg List.not_mem_nil]
    exact ⟨rfl, rfl, nofun, rfl, positive, rfl⟩

theorem connect_linked (json : CmJson) (cm : FwdCm) (interest : cm.interest = none) (sock : cm.sock = 0) (polled : cm.polled = []) (stale : Bool)
    (connect : Connect) (prompt : PromptConnect cm stale connect) :
    ((fwdCmConnect json cm stale connect).1 = true ∧ Linked (fwdCmConnect json cm stale connect).2 ∧
      (fwdCmConnect json cm stale connect).2.timer = true) ∨
    ((fwdCmConnect json cm stale connect).1 = false ∧ ((fwdCmConnect json cm stale connect).2 = cm ∨
      (fwdCmConnect json cm stale connect).2 = { cm with st := .err })) := by
  cases connect with
  | nowhere => exact .inr ⟨rfl, .inl rfl⟩
  | refused => exact .inr ⟨rfl, .inr rfl⟩
  | progress fd => exact prompt.elim
  | immediate fd =>
    rw [fwdCmConnect]
    split
    · exact .inr ⟨rfl, .inl rfl⟩
    · rename_i positive
      exact .inl ⟨rfl, immediate_linked json cm interest sock polled fd positive _ prompt, rfl⟩

theorem start_alive (json : CmJson) (stale : Bool) (connect : Connect) (prompt : PromptConnect fwdCmInit stale connect) :
    AliveInv (fwdCmStart json fwdCmInit stale connect) := by
  rw [fwdCmStart]
  rcases connect_linked json { fwdCmInit with st := .min } rfl rfl rfl _ _ prompt with ⟨ok, linked, timer⟩ | ⟨failed, _⟩
  · dsimp only
    rw [if_pos ok]
    exact .inr (.inl ⟨linked, timer⟩)
  · dsimp only
    rw [if_neg (by rw [failed]; exact nofun)]
    exact .inl rfl

section Step

variable (json : CmJson) (cm : FwdCm)

theorem linked_step (linked : Linked cm) (timer : cm.timer = true) (running : ¬ (cm.st = .stop ∨ cm.crashed)) (step : CmStep) :
    AliveInv (cmStep json cm step) := by
  have kept (next : FwdCm) (kept : Kept cm next) : AliveInv next := by
    rcases kept with ⟨last, same⟩ | lost
    · exact .inr (.inl ⟨last, same.trans timer⟩)
    · exact .inr (.inr lost)
  rw [cmStep.eq_def, if_neg running]
  cases step with
  | event error refused flgs reads sends replies =>
    dsimp only
    rw [if_neg (by rw [linked.polled]; exact nofun), cmEventCb]
    cases error with
    | true =>
      have cancelled : cmEventCancel { cm with error := true } = { cm with error := true, interest := none, polled := [] } := by
        rw [cmEventCancel, if_neg linked.interest]
        rw [linked.polled, linked.event]
        simp
      rw [if_pos rfl, cancelled]
      rw [if_pos rfl]
      exact kept _ (.inr (st_err_lost _ (.inl rfl)))
    | false =>
      rw [if_neg Bool.false_ne_true, if_neg (by rw [linked.error]; exact Bool.false_ne_true), linked.st]
      have same : Linked { cm with st := .est } := ⟨rfl, linked.error, linked.interest, linked.event, linked.sock, linked.polled⟩
      exact kept _ (linked_est json _ same flgs _ _ _)
  | timeout stale connect =>
    dsimp only
    have handler : cmTimeoutHandler json cm.st = some fun cm _ _ => cmTimeoutEst cm := by rw [linked.st]; rfl
    have waits : Linked (cmNote { cm with timer := false } .heartbeat) := { linked with }
    rw [if_pos timer, cmTimeoutCb, handler]
    obtain ⟨sent, _⟩ := linked_send waits _ 0 _ _
    exact .inr (.inl ⟨{ sent with }, rfl⟩)
  | fired ticket stale =>
    have noted : Linked (cmNote cm (.ended ticket)) := { linked with }
    dsimp only
    rw [if_pos linked.st]
    exact kept _ (.inl (linked_send noted _ _ _ _))
  | stop => exact .inl rfl

theorem lost_step (lost : Lost cm) (running : ¬ (cm.st = .stop ∨ cm.crashed)) (step : CmStep) (prompt : Prompt cm step) :
    AliveInv (cmStep json cm step) := by
  rw [cmStep.eq_def, if_neg running]
  cases step with
  | event error refused flgs reads sends replies =>
    dsimp only
    rw [if_pos lost.polled]
    exact .inr (.inr lost)
  | timeout stale connect =>
    dsimp only
    have handler : cmTimeoutHandler json cm.st = some fun cm stale connect => cmTimeoutErr json cm stale connect := by rw [lost.st]; rfl
    rw [if_pos lost.timer, cmTimeoutCb, handler]
    dsimp only
    rw [cmTimeoutErr]
    rcases connect_linked json { cm with timer := false } lost.interest lost.sock lost.polled _ _ (prompt lost.st) with
      ⟨ok, linked, timer⟩ | ⟨failed, same | same⟩
    · dsimp only
      rw [if_pos ok]
      exact .inr (.inl ⟨linked, timer⟩)
    · dsimp only
      rw [if_neg (by rw [failed]; exact nofun), same]
      exact .inr (.inr ⟨lost.st, lost.interest, lost.sock, lost.polled, rfl⟩)
    · dsimp only
      rw [if_neg (by rw [failed]; exact nofun), same]
      exact .inr (.inr ⟨rfl, lost.interest, lost.sock, lost.polled, rfl⟩)
  | fired ticket stale =>
    dsimp only
    have unset : ¬ cm.interest = some readWrite := by
      rw [lost.interest]
      exact nofun
    have foreign : ¬ (cm.eventFd = cm.sock ∧ cm.sock ≠ 0) := fun own => own.2 lost.sock
    have refused : stale = false := prompt lost.st
    rw [if_neg (by rw [lost.st]; exact nofun), cmSend, cmEventSet]
    rw [if_neg unset, if_neg foreign, if_neg (by rw [refused]; exact nofun)]
    exact .inr (.inr { lost with })
  | stop => exact .inl rfl

theorem alive_step (inv : AliveInv cm) (step : CmStep) (prompt : Prompt cm step) : AliveInv (cmStep json cm step) := by
  by_cases past : cm.st = .stop ∨ cm.crashed
  · rw [cmStep.eq_def, if_pos past]
    exact inv
  · rcases inv with stopped | ⟨linked, timer⟩ | lost
    · exact absurd (.inl stopped) past
    · exact linked_step json cm linked timer past step
    · exact lost_step json cm lost past step prompt

theorem alive_of_inv (inv : AliveInv cm) : Alive json cm := by
  intro running
  rcases inv with stopped | ⟨linked, timer⟩ | lost
  · exact absurd stopped running
  · refine ⟨timer, ?_, fun _ => ⟨linked.sock, ?_⟩⟩
    · rw [linked.st]
      rfl
    · rw [linked.polled]
      exact List.mem_singleton.mpr rfl
  · refine ⟨lost.timer, ?_, fun connected => ?_⟩
    · rw [lost.st]
      rfl
    · rw [lost.st] at connected
      exact absurd connected (by decide)

end Step

theorem cm_alive (json : CmJson) (stale : Bool) (connect : Connect) (first : PromptConnect fwdCmInit stale connect) (steps : List CmStep)
    (prompt : AllSteps (cmStep json) Prompt (fwdCmStart json fwdCmInit stale connect) steps) :
    Alive json (run (cmStep json) (fwdCmStart json fwdCmInit stale connect) steps) :=
  alive_of_inv json _ (run_keeps _ _ _ _ _ (start_alive json _ _ first)
    (fun cm step inv allowed => alive_step json cm inv step allowed) prompt)

def noJson : CmJson := ⟨[], fun _ => [], fun _ => .invalid⟩

-- Connected at once, lost, and tried again without success.
theorem cm_alive_retry : Alive noJson (run (cmStep noJson) (fwdCmStart noJson fwdCmInit false (.immediate 5))
    [.event true false ⟨true, false⟩ [] [] [], .timeout false .refused]) :=
  cm_alive _ false (.immediate 5) nofun _ ⟨trivial, fun _ => trivial, trivial⟩

theorem slow_connect_silent : ¬ ∀ json stale connect steps, Alive json (run (cmStep json) (fwdCmStart json fwdCmInit stale connect) steps) := by
  intro all
  have alive := all noJson false (.progress 5) [.timeout false .nowhere, .event false false ⟨false, true⟩ [] [.took 7] []] (by decide)
  exact absurd alive.1 (by decide)

end Codec.Fwd
