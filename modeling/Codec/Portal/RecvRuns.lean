import Codec.Lib.Loops
import Codec.Portal.Datagram

set_option autoImplicit false

namespace Codec.Portal

open Codec.Ems Codec.Lib

inductive TurnSt
  | run
  | again
  | used
deriving DecidableEq

structure Turn where
  mem : List UInt8
  lbuf : Nat
  n : Option Nat
  list : List ValuePair
  count : Nat
  st : TurnSt

def turnStart (mem : List UInt8) (lbuf : Nat) (n : Option Nat) : Turn := ⟨mem, lbuf, n, [], 0, .run⟩

section Parse

variable (evt : Bool) (turn : Turn)

def Turn.ty : UInt8 := turn.mem.getD 0 0

def Turn.len : Nat := (turn.mem.getD 1 0).toNat

def Turn.Done : Prop := turn.n = some 0 ∨ turn.lbuf = 0

instance : Decidable turn.Done := inferInstanceAs (Decidable (_ ∨ _))

def Turn.moved (list : List ValuePair) : Turn :=
  { turn with
    mem := turn.mem.drop turn.len
    lbuf := turn.lbuf - turn.len
    n := turn.n.map (· - 1)
    list := turn.list ++ list
    count := turn.count + turn.len }

def parseTurn : Turn :=
  match turn.st with
  | .run =>
    if turn.Done then { turn with st := .used }
    else if turn.lbuf < turn.len then { turn with st := .again }
    else match attrOf evt turn.ty with
      | none => if turn.len = 0 then { turn with st := .used } else turn.moved []
      | some attr => turn.moved ((ptlVpNew attr (turn.mem.drop 2) (turn.len - 2)).map ValuePair.ntohl).toList
  | _ => turn

def valueRead (attr : Attr) (len : Nat) : Nat := match attr.ty with
  | .string => len - 2
  | .int => 4

def TurnSound : Prop :=
  turn.st = .run → ¬ turn.Done → 2 ≤ turn.lbuf ∧
    (turn.len ≤ turn.lbuf → ∀ attr, attrOf evt turn.ty = some attr → (0 : Int) ≤ turn.len - 2 ∧ 2 + valueRead attr turn.len ≤ turn.lbuf)

inductive WellFormed (evt : Bool) : List UInt8 → Nat → Option Nat → Prop
  | enough (mem : List UInt8) (lbuf : Nat) : WellFormed evt mem lbuf (some 0)
  | nothing (mem : List UInt8) (n : Option Nat) : WellFormed evt mem 0 n
  | cut (mem : List UInt8) (lbuf : Nat) (n : Option Nat) (header : 2 ≤ lbuf) (short : lbuf < (mem.getD 1 0).toNat) : WellFormed evt mem lbuf n
  | stop (mem : List UInt8) (lbuf : Nat) (n : Option Nat) (header : 2 ≤ lbuf) (unknown : attrOf evt (mem.getD 0 0) = none)
      (zero : (mem.getD 1 0).toNat = 0) : WellFormed evt mem lbuf n
  | skip (mem : List UInt8) (lbuf : Nat) (n : Option Nat) (header : 2 ≤ lbuf) (unknown : attrOf evt (mem.getD 0 0) = none)
      (some : 0 < (mem.getD 1 0).toNat) (whole : (mem.getD 1 0).toNat ≤ lbuf)
      (rest : WellFormed evt (mem.drop (mem.getD 1 0).toNat) (lbuf - (mem.getD 1 0).toNat) (n.map (· - 1))) : WellFormed evt mem lbuf n
  | take (attr : Attr) (mem : List UInt8) (lbuf : Nat) (n : Option Nat) (known : attrOf evt (mem.getD 0 0) = some attr)
      (header : 2 ≤ (mem.getD 1 0).toNat) (whole : (mem.getD 1 0).toNat ≤ lbuf) (value : attr.ty = .int → 6 ≤ lbuf)
      (rest : WellFormed evt (mem.drop (mem.getD 1 0).toNat) (lbuf - (mem.getD 1 0).toNat) (n.map (· - 1))) : WellFormed evt mem lbuf n

def Turn.Formed : Prop := turn.st = .run → WellFormed evt turn.mem turn.lbuf turn.n

end Parse

-- What becomes of a ptl_process_rsp: after an error its result is not used,
-- otherwise the loop goes on, and behind it recv if again is still set.
inductive After
  | tail
  | loop (again : Bool)
deriving DecidableEq

inductive PtlPc
  | recv
  | enter (after : After)
  | parse (after : After) (evt : Bool) (turn : Turn)
  | ended

structure PtlState (σ : Type) where
  pc : PtlPc
  line : Line σ
  recvs : Nat

section Machine

variable {σ : Type} (isOpen : σ → Bool) (close : σ → σ) (handle : σ → Msg → σ) (recv : Nat → Recv) (state : PtlState σ)

def PtlState.left (after : After) (ret : Ret) : PtlState σ :=
  { state with
    pc := match after, ret with
      | .tail, _ => .ended
      | .loop again, .again => if again then .recv else .ended
      | .loop again, _ => .enter (.loop again) }

def PtlState.took (after : After) (msg : Msg) (total : Nat) : PtlState σ :=
  PtlState.left { state with line := state.line.deliver handle msg total } after .ok

def ptlRead : PtlState σ :=
  let buf := state.line.bufIn
  let stream := answersFor recv state.recvs buf.left
  let res := sockRead (isOpen state.line.app) buf stream
  { pc := if res.ret = .none then (if res.buf.len = 0 then .ended else .enter .tail) else .enter (.loop (res.ret ≠ .again))
    line := state.line.filled close stream res
    recvs := state.recvs + (stream.length - res.stream.length) }

def eventStart (buf : Buffer) : Turn :=
  turnStart (buf.mem.drop (buf.rd + hdrLen)) (buf.len - hdrLen) (some (AuthHdr.received buf.content).nAttr.toNat)

def replyStart (buf : Buffer) : Turn := turnStart (buf.mem.drop buf.rd) buf.len none

def ptlEnter (after : After) : PtlState σ :=
  let buf := state.line.bufIn
  if buf.len = 0 then state.left after .again
  else if buf.content.getD 0 0 = 1 then
    if buf.len < hdrLen then state.left after .again
    else { state with pc := .parse after true (eventStart buf) }
  else { state with pc := .parse after false (replyStart buf) }

def ptlParsed (after : After) (evt : Bool) (turn : Turn) : PtlState σ :=
  match turn.st with
  | .run => { state with pc := .parse after evt (parseTurn evt turn) }
  | .again => state.left after .again
  | .used =>
    if evt then state.took handle after (.event (AuthHdr.received state.line.bufIn.content) turn.list) (hdrLen + turn.count)
    else if turn.count = 0 then state.left after .ok
    else state.took handle after (.reply turn.list) turn.count

-- ptl_recv_msg by its calls of sess_recv, the entries of ptl_process_rsp and
-- the turns of ptl_parse_ctx.
def ptlStep : PtlState σ :=
  match state.pc with
  | .recv => ptlRead isOpen close recv state
  | .enter after => ptlEnter state after
  | .parse after evt turn => ptlParsed handle state after evt turn
  | .ended => state

def ptlRecvStart (line : Line σ) : PtlState σ := ⟨.recv, line, 0⟩

def PtlState.Over (state : PtlState σ) : Prop := state.pc = .ended

def StateSound (state : PtlState σ) : Prop := ∀ after evt turn, state.pc = .parse after evt turn → TurnSound evt turn

def ZeroFront (buf : Buffer) : Prop := attrOf false ((buf.mem.drop buf.rd).getD 0 0) = none ∧ ((buf.mem.drop buf.rd).getD 1 0).toNat = 0

def BufferFormed (after : After) (buf : Buffer) : Prop :=
  buf.len = 0 ∨
    if buf.content.getD 0 0 = 1 then
      buf.len < hdrLen ∨
        WellFormed true (buf.mem.drop (buf.rd + hdrLen)) (buf.len - hdrLen) (some (AuthHdr.received buf.content).nAttr.toNat)
    else WellFormed false (buf.mem.drop buf.rd) buf.len none ∧ (after = .tail ∨ ¬ ZeroFront buf)

def StateFormed (state : PtlState σ) : Prop := ∀ after, state.pc = .enter after → BufferFormed after state.line.bufIn

end Machine

section Turns

variable (evt : Bool) (turn : Turn)

theorem parse_rests (ended : turn.st ≠ .run) : parseTurn evt turn = turn := by
  unfold parseTurn
  split
  · rename_i run
    exact absurd run ended
  · rfl

def FrontFormed (mem : List UInt8) (lbuf : Nat) (n : Option Nat) : Prop :=
  let len := (mem.getD 1 0).toNat
  match attrOf evt (mem.getD 0 0) with
  | none => len = 0 ∨ WellFormed evt (mem.drop len) (lbuf - len) (n.map (· - 1))
  | some attr => 2 ≤ len ∧ (attr.ty = .int → 6 ≤ lbuf) ∧ WellFormed evt (mem.drop len) (lbuf - len) (n.map (· - 1))

theorem formed_front (mem : List UInt8) (lbuf : Nat) (n : Option Nat) (formed : WellFormed evt mem lbuf n) (more : ¬ (n = some 0 ∨ lbuf = 0)) :
    2 ≤ lbuf ∧ ((mem.getD 1 0).toNat ≤ lbuf → FrontFormed evt mem lbuf n) := by
  unfold FrontFormed
  cases formed with
  | enough => exact absurd (.inl rfl) more
  | nothing => exact absurd (.inr rfl) more
  | cut _ _ _ header short => exact ⟨header, fun fits => absurd fits (Nat.not_le_of_lt short)⟩
  | stop _ _ _ header unknown zero =>
    refine ⟨header, fun _ => ?_⟩
    rw [unknown]
    exact .inl zero
  | skip _ _ _ header unknown some whole rest =>
    refine ⟨header, fun _ => ?_⟩
    rw [unknown]
    exact .inr rest
  | take attr _ _ _ known header whole value rest =>
    refine ⟨by omega, fun _ => ?_⟩
    rw [known]
    exact ⟨header, value, rest⟩

theorem front_formed (mem : List UInt8) (lbuf : Nat) (n : Option Nat) (header : 2 ≤ lbuf)
    (front : (mem.getD 1 0).toNat ≤ lbuf → FrontFormed evt mem lbuf n) : WellFormed evt mem lbuf n := by
  by_cases whole : (mem.getD 1 0).toNat ≤ lbuf
  · have front := front whole
    unfold FrontFormed at front
    cases type : attrOf evt _ with
    | none =>
      rw [type] at front
      rcases front with zero | rest
      · exact .stop mem lbuf n header type zero
      · by_cases zero : (mem.getD 1 0).toNat = 0
        · exact .stop mem lbuf n header type zero
        · exact .skip mem lbuf n header type (Nat.pos_of_ne_zero zero) whole rest
    | some attr =>
      rw [type] at front
      exact .take attr mem lbuf n type front.1 whole front.2.1 front.2.2
  · exact .cut mem lbuf n header (Nat.lt_of_not_le whole)

theorem formed_sound (formed : turn.Formed evt) : TurnSound evt turn := by
  intro run more
  obtain ⟨header, front⟩ := formed_front evt _ _ _ (formed run) more
  refine ⟨header, fun whole attr known => ?_⟩
  have front := front whole
  unfold FrontFormed at front
  rw [show attrOf evt (turn.mem.getD 0 0) = some attr from known] at front
  obtain ⟨long, value, -⟩ := front
  change 2 ≤ turn.len at long
  refine ⟨by omega, ?_⟩
  unfold valueRead
  cases type : attr.ty with
  | string => dsimp only; omega
  | int => exact value type

theorem parse_front (run : turn.st = .run) (done : ¬ turn.Done) (whole : turn.len ≤ turn.lbuf) :
    parseTurn evt turn = match attrOf evt turn.ty with
      | none => if turn.len = 0 then { turn with st := .used } else turn.moved []
      | some attr => turn.moved ((ptlVpNew attr (turn.mem.drop 2) (turn.len - 2)).map ValuePair.ntohl).toList := by
  unfold parseTurn
  rw [run]
  rw [if_neg done, if_neg (Nat.not_lt_of_le whole)]

def turnRank : Nat := match turn.st with
  | .run => turn.lbuf + 1
  | _ => 0

def TurnNext (next : Turn) : Prop :=
  next.Formed evt ∧ turnRank next < turnRank turn ∧ next.count + next.lbuf = turn.count + turn.lbuf

theorem next_over (run : turn.st = .run) (st : TurnSt) (ended : st ≠ .run) : TurnNext evt turn { turn with st := st } := by
  have rank : turnRank { turn with st := st } = 0 := by
    cases st with
    | run => exact absurd rfl ended
    | again => rfl
    | used => rfl
  refine ⟨fun same => absurd same ended, ?_, rfl⟩
  rw [rank, turnRank, run]
  exact Nat.succ_pos _

theorem next_moved (run : turn.st = .run) (list : List ValuePair) (some : 0 < turn.len) (whole : turn.len ≤ turn.lbuf)
    (rest : WellFormed evt (turn.mem.drop turn.len) (turn.lbuf - turn.len) (turn.n.map (· - 1))) : TurnNext evt turn (turn.moved list) := by
  refine ⟨fun _ => rest, ?_, ?_⟩
  · unfold turnRank Turn.moved
    rw [run]
    dsimp only
    omega
  · rw [Turn.moved]
    dsimp only
    omega

theorem formed_turn (formed : turn.Formed evt) (run : turn.st = .run) : TurnNext evt turn (parseTurn evt turn) := by
  by_cases done : turn.Done
  · rw [parseTurn, run]
    rw [if_pos done]
    exact next_over evt turn run _ nofun
  by_cases short : turn.lbuf < turn.len
  · rw [parseTurn, run]
    rw [if_neg done, if_pos short]
    exact next_over evt turn run _ nofun
  rw [parse_front evt turn run done (Nat.le_of_not_lt short)]
  obtain ⟨header, front⟩ := formed_front evt _ _ _ (formed run) done
  have front := front (Nat.le_of_not_lt short)
  unfold FrontFormed at front
  rw [show attrOf evt (turn.mem.getD 0 0) = attrOf evt turn.ty from rfl] at front
  cases type : attrOf evt _ with
  | none =>
    rw [type] at front
    by_cases zero : turn.len = 0
    · rw [if_pos zero]
      exact next_over evt turn run _ nofun
    · rw [if_neg zero]
      exact next_moved evt turn run _ (Nat.pos_of_ne_zero zero) (Nat.le_of_not_lt short) (front.resolve_left zero)
  | some attr =>
    rw [type] at front
    exact next_moved evt turn run _ (Nat.lt_of_lt_of_le Nat.two_pos front.1) (Nat.le_of_not_lt short) front.2.2

theorem sound_formed (rank : Nat) (turn : Turn) (bound : turn.lbuf ≤ rank) (run : turn.st = .run)
    (sound : ∀ count, TurnSound evt ((parseTurn evt)^[count] turn)) : WellFormed evt turn.mem turn.lbuf turn.n := by
  induction rank generalizing turn with
  | zero =>
    rw [Nat.le_zero.mp bound]
    exact .nothing _ _
  | succ rank ih =>
    by_cases done : turn.Done
    · rcases done with enough | nothing
      · rw [enough]
        exact .enough _ _
      · rw [nothing]
        exact .nothing _ _
    obtain ⟨header, value⟩ := sound 0 run done
    refine front_formed evt _ _ _ header fun whole => ?_
    have onward := fun count => sound (count + 1)
    have later (list : List _) (some : 0 < turn.len) (step : parseTurn evt turn = turn.moved list) :
        WellFormed evt (turn.mem.drop turn.len) (turn.lbuf - turn.len) (turn.n.map (· - 1)) := by
      refine ih (turn.moved list) ?_ run ?_
      · show turn.lbuf - turn.len ≤ rank
        omega
      · rw [← step]
        exact onward
    unfold FrontFormed
    have step := parse_front evt turn run done whole
    cases type : attrOf evt _ with
    | none =>
      rw [show attrOf evt turn.ty = none from type] at step
      by_cases zero : turn.len = 0
      · exact .inl zero
      · rw [if_neg zero] at step
        exact .inr (later [] (Nat.pos_of_ne_zero zero) step)
    | some attr =>
      obtain ⟨length, read⟩ := value whole attr type
      rw [show attrOf evt turn.ty = some attr from type] at step
      change (0 : Int) ≤ turn.len - 2 at length
      have long : 2 ≤ turn.len := by omega
      refine ⟨long, ?_, later _ (Nat.lt_of_lt_of_le Nat.two_pos long) step⟩
      intro int
      rw [valueRead, int] at read
      exact read

end Turns

section Apart

variable {σ : Type} (isOpen : σ → Bool) (close : σ → σ) (handle : σ → Msg → σ) (recv : Nat → Recv)

theorem turns_run (after : After) (evt : Bool) (count : Nat) (state : PtlState σ) (turn : Turn) (pc : state.pc = .parse after evt turn)
    (run : ((parseTurn evt)^[count] turn).st = .run) :
    ((ptlStep isOpen close handle recv)^[count] state).pc = .parse after evt ((parseTurn evt)^[count] turn) := by
  induction count generalizing state turn with
  | zero => exact pc
  | succ count ih =>
    have running : turn.st = .run := by
      by_contra ended
      have rests := parse_rests evt turn ended
      rw [Function.iterate_fixed rests] at run
      exact ended run
    refine ih _ _ ?_ run
    rw [ptlStep, pc]
    dsimp only
    rw [ptlParsed, running]

theorem sound_run (after : After) (evt : Bool) (state : PtlState σ) (turn : Turn) (pc : state.pc = .parse after evt turn)
    (run : turn.st = .run) (sound : ∀ count, StateSound ((ptlStep isOpen close handle recv)^[count] state)) :
    WellFormed evt turn.mem turn.lbuf turn.n := by
  refine sound_formed evt _ turn (Nat.le_refl _) run fun count running => ?_
  exact sound _ _ evt _ (turns_run _ _ _ recv _ evt _ _ turn pc running) running

def Spinning (again : Bool) (state : PtlState σ) : Prop :=
  (state.line.bufIn.len ≠ 0 ∧ state.line.bufIn.content.getD 0 0 ≠ 1 ∧ ZeroFront state.line.bufIn) ∧
    (state.pc = .enter (.loop again) ∨ state.pc = .parse (.loop again) false (replyStart state.line.bufIn) ∨
      state.pc = .parse (.loop again) false { replyStart state.line.bufIn with st := .used })

theorem zero_front_turn (buf : Buffer) (some : buf.len ≠ 0) (zero : ZeroFront buf) :
    parseTurn false (replyStart buf) = { replyStart buf with st := .used } := by
  have more : ¬ (replyStart buf).Done := by
    rintro (none | empty)
    · exact nomatch none
    · exact some empty
  have len : (replyStart buf).len = 0 := zero.2
  have ty : attrOf _ (replyStart buf).ty = none := zero.1
  rw [parse_front _ _ rfl more (by rw [len]; exact Nat.zero_le _), ty]
  exact if_pos len

theorem spinning_stays (again : Bool) (state : PtlState σ) (spins : Spinning again state) :
    Spinning again (ptlStep isOpen close handle recv state) := by
  obtain ⟨⟨some, reply, zero⟩, pc⟩ := spins
  rcases pc with enter | start | used
  · have step : ptlStep isOpen close handle recv state = { state with pc := .parse (.loop again) false (replyStart state.line.bufIn) } := by
      rw [ptlStep, enter]
      dsimp only
      rw [ptlEnter, if_neg some, if_neg reply]
    rw [step]
    exact ⟨⟨some, reply, zero⟩, .inr (.inl rfl)⟩
  · have step : ptlStep isOpen close handle recv state =
        { state with pc := .parse (.loop again) false { replyStart state.line.bufIn with st := .used } } := by
      rw [ptlStep, start, ← zero_front_turn _ some zero]
      rfl
    rw [step]
    exact ⟨⟨some, reply, zero⟩, .inr (.inr rfl)⟩
  · have step : ptlStep isOpen close handle recv state = { state with pc := .enter (.loop again) } := by
      rw [ptlStep, used]
      rfl
    rw [step]
    exact ⟨⟨some, reply, zero⟩, .inl rfl⟩

theorem good_formed (state : PtlState σ) (sound : ∀ count, StateSound ((ptlStep isOpen close handle recv)^[count] state))
    (ends : Ends (ptlStep isOpen close handle recv) PtlState.Over state) : StateFormed state := by
  intro after pc
  have step : ptlStep isOpen close handle recv state = ptlEnter state after := by rw [ptlStep, pc]
  have onward := fun count => sound (count + 1)
  by_cases empty : state.line.bufIn.len = 0
  · exact .inl empty
  refine .inr ?_
  by_cases event : state.line.bufIn.content.getD 0 0 = 1
  · rw [if_pos event]
    by_cases short : state.line.bufIn.len < hdrLen
    · exact .inl short
    · refine .inr (sound_run _ _ _ recv after true _
        (eventStart _) ?_ rfl onward)
      rw [step, ptlEnter, if_neg empty, if_pos event, if_neg short]
  · rw [if_neg event]
    constructor
    · refine sound_run _ _ _ recv after _ _
        (replyStart _) ?_ rfl onward
      rw [step, ptlEnter, if_neg empty, if_neg event]
    · cases after with
      | tail => exact .inl rfl
      | loop again =>
        refine .inr fun zero => ?_
        refine trapped _ _ _ (spinning_stays _ _ _ recv _) ?_ ?_
          _ 0 ⟨⟨empty, event, zero⟩, .inl pc⟩ ends
        · rintro state ⟨-, enter | start | used⟩ ended
          · exact nomatch enter.symm.trans ended
          · exact nomatch start.symm.trans ended
          · exact nomatch used.symm.trans ended
        · intro state ended
          rw [ptlStep, show state.pc = .ended from ended]
          exact ended

end Apart

section Onward

variable {σ : Type} (isOpen : σ → Bool) (close : σ → σ) (handle : σ → Msg → σ) (recv : Nat → Recv) (last : Nat)

structure ParseKept (buf : Buffer) (after : After) (evt : Bool) (turn : Turn) : Prop where
  formed : turn.Formed evt
  sum : turn.count + turn.lbuf + (if evt then hdrLen else 0) = buf.len
  front : evt = false → after ≠ .tail → turn.count = 0 → (turn = replyStart buf ∧ buf.len ≠ 0 ∧ ¬ ZeroFront buf) ∨ turn.st = .again

variable (buf : Buffer) (line : Line σ) (state : PtlState σ) (after : After) (evt : Bool) (turn : Turn)

theorem parse_count : turn.count ≤ (parseTurn evt turn).count := by
  have moved (list : List _) : turn.count ≤ (turn.moved list).count := Nat.le_add_right _ _
  unfold parseTurn
  split
  · split
    · exact Nat.le_refl _
    split
    · exact Nat.le_refl _
    split
    · split
      · exact Nat.le_refl _
      · exact moved _
    · exact moved _
  · exact Nat.le_refl _

theorem front_turn (filled : buf.len ≠ 0) (zero : ¬ ZeroFront buf) (formed : (replyStart buf).Formed false) :
    (parseTurn false (replyStart buf)).count ≠ 0 ∨ (parseTurn false (replyStart buf)).st = .again := by
  have more : ¬ (replyStart buf).Done := by
    rintro (none | empty)
    · exact nomatch none
    · exact filled empty
  by_cases short : (replyStart buf).lbuf < (replyStart buf).len
  · right
    rw [parseTurn, show (replyStart buf).st = .run from rfl]
    rw [if_neg more, if_pos short]
  · left
    have whole := Nat.le_of_not_lt short
    have front := (formed_front _ _ _ _ (formed rfl) more).2 whole
    have moved (list : List _) : ((replyStart buf).moved list).count = (replyStart buf).len := Nat.zero_add _
    rw [parse_front _ _ rfl more whole]
    unfold FrontFormed at front
    cases type : attrOf _ _ with
    | none =>
      have len : (replyStart buf).len ≠ 0 := fun len => zero ⟨type, len⟩
      rw [if_neg len, moved]
      exact len
    | some attr =>
      rw [show attrOf _ ((replyStart buf).mem.getD 0 0) = some attr from type] at front
      have long : 2 ≤ (replyStart buf).len := front.1
      rw [moved]
      exact Nat.ne_of_gt (Nat.lt_of_lt_of_le Nat.two_pos long)

theorem kept_turn (kept : ParseKept buf after evt turn) (run : turn.st = .run) :
    ParseKept buf after evt (parseTurn evt turn) := by
  obtain ⟨formed, less, sum⟩ := formed_turn evt turn kept.formed run
  refine ⟨formed, by rw [sum]; exact kept.sum, ?_⟩
  rintro rfl loops zero
  right
  have grown := parse_count false turn
  rcases kept.front rfl loops (by omega) with ⟨rfl, filled, front⟩ | again
  · exact (front_turn buf filled front kept.formed).resolve_left fun more => more zero
  · exact nomatch run.symm.trans again

theorem kept_start (some : buf.len ≠ 0) (formed : BufferFormed after buf) :
    (buf.content.getD 0 0 = 1 → ¬ buf.len < hdrLen → ParseKept buf after true (eventStart buf)) ∧
      (buf.content.getD 0 0 ≠ 1 → ParseKept buf after false (replyStart buf)) := by
  have formed := formed.resolve_left some
  constructor
  · intro event long
    rw [if_pos event] at formed
    refine ⟨fun _ => formed.resolve_left long, ?_, nofun⟩
    show 0 + (buf.len - hdrLen) + hdrLen = buf.len
    omega
  · intro reply
    rw [if_neg reply] at formed
    refine ⟨fun _ => formed.1, ?_, fun _ loops _ => .inl ⟨rfl, some, formed.2.resolve_left loops⟩⟩
    show 0 + buf.len + 0 = buf.len
    omega

def afterRank (recvs : Nat) : After → Nat
  | .loop true => last + 2 - recvs
  | _ => 0

def ptlMeasure (state : PtlState σ) : Nat × Nat × Nat :=
  match state.pc with
  | .recv => (last + 2 - state.recvs, 0, 0)
  | .enter after => (afterRank last state.recvs after, state.line.bufIn.len + 1, state.line.bufIn.len + 2)
  | .parse after _ turn => (afterRank last state.recvs after, state.line.bufIn.len + 1, turnRank turn)
  | .ended => (0, 0, 0)

def Lower : Nat × Nat × Nat → Nat × Nat × Nat → Prop := Prod.Lex (· < ·) (Prod.Lex (· < ·) (· < ·))

def Early (state : PtlState σ) : Prop :=
  state.pc = .recv ∨ state.pc = .enter (.loop true) ∨ (∃ evt turn, state.pc = .parse (.loop true) evt turn) → state.recvs ≤ last

structure PtlKept (state : PtlState σ) : Prop where
  early : Early last state
  parse : ∀ after evt turn, state.pc = .parse after evt turn → ParseKept state.line.bufIn after evt turn

def Goes (state next : PtlState σ) : Prop :=
  next.Over ∨ (PtlKept last next ∧ Lower (ptlMeasure last next) (ptlMeasure last state))

theorem deliver_len (msg : Msg) (total : Nat) (inside : total ≤ line.bufIn.len) :
    (line.deliver handle msg total).bufIn.len = line.bufIn.len - total := consumed_len _ _ inside

theorem goes_again (kept : PtlKept last state)
    (pc : state.pc = .enter after ∨ ∃ evt turn, state.pc = .parse after evt turn) : Goes last state (state.left after .again) := by
  cases after with
  | tail => exact .inl rfl
  | loop again =>
    cases again with
    | false => exact .inl rfl
    | true =>
      have early : state.recvs ≤ last := kept.early (.inr pc)
      refine .inr ⟨⟨fun _ => early, fun _ _ _ other => nomatch other⟩, ?_⟩
      unfold ptlMeasure PtlState.left
      rcases pc with enter | ⟨evt, turn, parse⟩
      · rw [enter]
        exact Prod.Lex.right _ (Prod.Lex.left _ _ (Nat.succ_pos _))
      · rw [parse]
        exact Prod.Lex.right _ (Prod.Lex.left _ _ (Nat.succ_pos _))

theorem goes_took (msg : Msg) (total : Nat) (kept : PtlKept last state)
    (pc : state.pc = .parse after evt turn) (some : 0 < total) (inside : total ≤ state.line.bufIn.len) :
    Goes last state (state.took handle after msg total) := by
  cases after with
  | tail => exact .inl rfl
  | loop again =>
    have shorter := deliver_len handle _ msg _ inside
    refine .inr ⟨⟨?_, fun _ _ _ other => nomatch other⟩, ?_⟩
    · rintro (other | enter | ⟨_, _, other⟩)
      · exact nomatch other
      · obtain rfl : again = true := After.loop.inj (PtlPc.enter.inj enter)
        exact kept.early (.inr (.inr ⟨evt, turn, pc⟩))
      · exact nomatch other
    · unfold ptlMeasure PtlState.took PtlState.left
      rw [pc]
      refine Prod.Lex.right _ (Prod.Lex.left _ _ ?_)
      dsimp only
      omega

theorem goes_parse (kept : PtlKept last state)
    (pc : state.pc = .parse after evt turn) : Goes last state (ptlParsed handle state after evt turn) := by
  have parse := kept.parse _ evt turn pc
  unfold ptlParsed
  cases st : turn.st with
  | again => exact goes_again last _ _ kept (.inr ⟨evt, turn, pc⟩)
  | run =>
    refine .inr ⟨⟨?_, ?_⟩, ?_⟩
    · rintro (other | other | ⟨_, _, loops⟩)
      · exact nomatch other
      · exact nomatch other
      · obtain ⟨rfl, -, -⟩ := PtlPc.parse.inj loops
        exact kept.early (.inr (.inr ⟨evt, turn, pc⟩))
    · rintro _ _ _ ⟨⟩
      exact kept_turn _ _ evt turn parse st
    · have less := (formed_turn evt turn parse.formed st).2.1
      unfold ptlMeasure
      rw [pc]
      exact Prod.Lex.right _ (Prod.Lex.right _ less)
  | used =>
    have sum := parse.sum
    cases evt with
    | true =>
      rw [if_pos rfl] at sum ⊢
      exact goes_took _ last _ _ true turn _ _ kept pc (Nat.lt_of_lt_of_le (by decide) (Nat.le_add_right _ _)) (by omega)
    | false =>
      rw [if_neg Bool.false_ne_true] at sum ⊢
      by_cases zero : turn.count = 0
      · rw [if_pos zero]
        by_cases tail : after = .tail
        · rw [tail]
          exact .inl rfl
        · rcases parse.front rfl tail zero with ⟨start, -, -⟩ | again
          · exact nomatch (congrArg _ start).symm.trans st
          · exact nomatch st.symm.trans again
      · rw [if_neg zero]
        exact goes_took _ last _ _ _ turn _ _ kept pc (Nat.pos_of_ne_zero zero) (by omega)

theorem goes_enter (kept : PtlKept last state) (pc : state.pc = .enter after)
    (formed : BufferFormed after state.line.bufIn) : Goes last state (ptlEnter state after) := by
  have starts (evt : Bool) (turn : Turn) (parse : ParseKept state.line.bufIn after evt turn) (rank : turnRank turn < state.line.bufIn.len + 2) :
      Goes last state { state with pc := .parse after evt turn } := by
    refine .inr ⟨⟨?_, ?_⟩, ?_⟩
    · rintro (other | other | ⟨_, _, loops⟩)
      · exact nomatch other
      · exact nomatch other
      · obtain ⟨rfl, -, -⟩ := PtlPc.parse.inj loops
        exact kept.early (.inr (.inl pc))
    · rintro _ _ _ ⟨⟩
      exact parse
    · unfold ptlMeasure
      rw [pc]
      exact Prod.Lex.right _ (Prod.Lex.right _ rank)
  unfold ptlEnter
  by_cases empty : state.line.bufIn.len = 0
  · rw [if_pos empty]
    exact goes_again last _ _ kept (.inl pc)
  rw [if_neg empty]
  obtain ⟨event, reply⟩ := kept_start _ _ empty formed
  by_cases first : state.line.bufIn.content.getD 0 0 = 1
  · rw [if_pos first]
    by_cases short : state.line.bufIn.len < hdrLen
    · rw [if_pos short]
      exact goes_again last _ _ kept (.inl pc)
    · rw [if_neg short]
      refine starts true _ (event first short) ?_
      show state.line.bufIn.len - hdrLen + 1 < state.line.bufIn.len + 2
      omega
  · rw [if_neg first]
    exact starts _ _ (reply first) (Nat.lt_succ_self _)

theorem sock_read_some (opened : Bool) (buf : Buffer) (stream : List Recv) (got : (sockRead opened buf stream).ret = .some) :
    opened = true ∧ 0 < buf.left ∧ (readLoop stream buf.left []).1 = .full := by
  cases opened with
  | false => exact nomatch got
  | true =>
    refine ⟨rfl, ?_, ?_⟩
    · by_contra full
      rw [sock_read_full buf _ (by omega)] at got
      exact nomatch got
    · unfold sockRead at got
      rw [if_pos rfl] at got
      split at got
      · rename_i ended
        rw [ended]
      · exact nomatch got
      · exact nomatch got
      · exact nomatch got

theorem read_some_recvs (opened : Bool) (buf : Buffer) (recvs : Nat) (early : recvs ≤ last) (stops : recv last = .again)
    (got : (sockRead opened buf (answersFor recv recvs buf.left)).ret = .some) :
    recvs < recvs + ((answersFor recv recvs buf.left).length - (sockRead opened buf (answersFor recv recvs buf.left)).stream.length) ∧
      recvs + ((answersFor recv recvs buf.left).length - (sockRead opened buf (answersFor recv recvs buf.left)).stream.length) ≤ last := by
  obtain ⟨rfl, room, full⟩ := sock_read_some _ buf _ got
  have length := answers_length recv recvs buf.left
  obtain ⟨rest, answers⟩ := answers_cons recv _ _
  have taken := read_loop_takes (recv recvs) rest _ [] room
  rw [← answers] at taken
  have stream := sock_read_stream buf (answersFor recv recvs buf.left)
  have shorter : rest.length = buf.left := by
    rw [answers, List.length_cons] at length
    omega
  rw [stream]
  refine ⟨by omega, ?_⟩
  by_cases near : last - recvs ≤ buf.left
  · have answer : (answersFor recv recvs buf.left)[last - recvs]? = some .again := by
      rw [answersFor, List.getElem?_map, List.getElem?_range (by omega), Option.map_some, Nat.add_sub_cancel' early, stops]
    have before := read_loop_full _ _ _ full _ answer
    omega
  · omega

theorem goes_recv (kept : PtlKept last state) (pc : state.pc = .recv) (stops : recv last = .again) :
    Goes last state (ptlRead isOpen close recv state) := by
  have early : state.recvs ≤ last := kept.early (.inl pc)
  unfold ptlRead
  dsimp only
  have ended (line : Line σ) (recvs : Nat) (after : After) (other : after ≠ .loop true) : Goes last state ⟨.enter after, line, recvs⟩ := by
    refine .inr ⟨⟨?_, fun _ _ _ parse => nomatch parse⟩, ?_⟩
    · rintro (recv | enter | ⟨_, _, parse⟩)
      · exact nomatch recv
      · exact absurd (PtlPc.enter.inj enter) other
      · exact nomatch parse
    · have none : afterRank last recvs after = 0 := by
        unfold afterRank
        split
        · exact absurd rfl other
        · rfl
      unfold ptlMeasure
      rw [pc]
      dsimp only
      rw [none]
      exact Prod.Lex.left _ _ (by omega)
  cases ret : (sockRead _ _ _).ret with
  | none =>
    rw [if_pos rfl]
    split
    · exact .inl rfl
    · exact ended _ _ _ nofun
  | again =>
    rw [if_neg nofun]
    exact ended _ _ _ nofun
  | some =>
    obtain ⟨more, within⟩ := read_some_recvs recv last _ _ _ early stops ret
    rw [if_neg nofun]
    refine .inr ⟨⟨fun _ => within, fun _ _ _ parse => nomatch parse⟩, ?_⟩
    unfold ptlMeasure
    rw [pc]
    exact Prod.Lex.left _ _ (Nat.sub_lt_sub_left (by omega) more)

theorem goes_step (kept : PtlKept last state) (formed : StateFormed state) (stops : recv last = .again) :
    Goes last state (ptlStep isOpen close handle recv state) := by
  unfold ptlStep
  cases pc : state.pc with
  | recv => exact goes_recv _ _ recv last _ kept pc stops
  | enter after => exact goes_enter last _ _ kept pc (formed _ pc)
  | parse after evt turn => exact goes_parse _ last _ _ evt turn kept pc
  | ended => exact .inl pc

theorem start_kept : PtlKept last (ptlRecvStart line) := ⟨fun _ => Nat.zero_le _, fun _ _ _ other => nomatch other⟩

theorem formed_ends (stops : recv last = .again)
    (formed : ∀ count, StateFormed ((ptlStep isOpen close handle recv)^[count] (ptlRecvStart line))) :
    Ends (ptlStep isOpen close handle recv) PtlState.Over (ptlRecvStart line) := by
  refine ends_of_descent _ _ _ (WellFounded.prod_lex Nat.lt_wfRel.wf (WellFounded.prod_lex Nat.lt_wfRel.wf Nat.lt_wfRel.wf))
    (fun state => PtlKept last state ∧ ∀ count, StateFormed ((ptlStep _ _ _ recv)^[count] state)) (ptlMeasure last) ?_ _
    ⟨start_kept last line, formed⟩
  intro state both _
  rcases goes_step _ _ _ recv last _ both.1 (both.2 0) stops with ended | ⟨kept, lower⟩
  · exact .inl ended
  · exact .inr ⟨⟨kept, fun count => both.2 (count + 1)⟩, lower⟩

theorem formed_sounds (stops : recv last = .again)
    (formed : ∀ count, StateFormed ((ptlStep isOpen close handle recv)^[count] (ptlRecvStart line))) (count : Nat) :
    StateSound ((ptlStep isOpen close handle recv)^[count] (ptlRecvStart line)) := by
  have kept := iterate_keeps (ptlStep _ _ _ recv)
    (fun state => (state.Over ∨ PtlKept last state) ∧ ∀ count, StateFormed ((ptlStep _ _ _ recv)^[count] state)) (by
      rintro state ⟨ended | kept, onward⟩
      · have rests : ptlStep isOpen close handle recv state = state := by rw [ptlStep, show state.pc = .ended from ended]
        rw [rests]
        exact ⟨.inl ended, onward⟩
      · refine ⟨?_, fun count => onward (count + 1)⟩
        rcases goes_step _ _ _ recv last _ kept (onward 0) stops with ended | ⟨kept, -⟩
        · exact .inl ended
        · exact .inr kept) _ ⟨.inr (start_kept last line), formed⟩ count
  intro after evt turn pc
  rcases kept.1 with ended | kept
  · exact nomatch pc.symm.trans ended
  · exact formed_sound evt turn (kept.parse _ evt turn pc).formed

end Onward

section Run

variable {σ : Type} (isOpen : σ → Bool) (close : σ → σ) (handle : σ → Msg → σ) (recv : Nat → Recv) (line : Line σ)

def Turn.Over (turn : Turn) : Prop := turn.st ≠ .run

def ParseGood (evt : Bool) (turn : Turn) : Prop :=
  Ends (parseTurn evt) Turn.Over turn ∧ ∀ count, TurnSound evt ((parseTurn evt)^[count] turn)

def RecvGood : Prop :=
  Ends (ptlStep isOpen close handle recv) PtlState.Over (ptlRecvStart line) ∧
    ∀ count, StateSound ((ptlStep isOpen close handle recv)^[count] (ptlRecvStart line))

theorem parse_good_iff (evt : Bool) (mem : List UInt8) (lbuf : Nat) (n : Option Nat) :
    ParseGood evt (turnStart mem lbuf n) ↔ WellFormed evt mem lbuf n := by
  constructor
  · intro good
    exact sound_formed evt lbuf _ (Nat.le_refl _) rfl good.2
  · intro formed
    constructor
    · refine ends_of_measure _ _ (fun turn => turn.Formed evt) turnRank ?_ _ fun _ => formed
      intro turn kept runs
      obtain ⟨next, less, -⟩ := formed_turn evt turn kept (Decidable.not_not.mp runs)
      exact .inr ⟨next, less⟩
    · intro count
      refine formed_sound evt _ ?_
      refine iterate_keeps _ _ ?_ _ (fun _ => formed) _
      intro turn kept
      by_cases run : turn.st = .run
      · exact (formed_turn evt turn kept run).1
      · rw [parse_rests evt turn run]
        exact kept

theorem over_rests (state : PtlState σ) (ended : state.Over) : PtlState.Over (ptlStep isOpen close handle recv state) := by
  rw [ptlStep, show state.pc = .ended from ended]
  exact ended

theorem recv_good_iff (last : Nat) (stops : recv last = .again) :
    RecvGood isOpen close handle recv line ↔ ∀ count, StateFormed ((ptlStep isOpen close handle recv)^[count] (ptlRecvStart line)) := by
  constructor
  · rintro ⟨ends, sound⟩ count
    refine good_formed isOpen close handle recv _ (fun more => ?_) ?_
    · rw [← Function.iterate_add_apply]
      exact sound _
    · exact ends_onward _ _ (over_rests _ _ _ recv) _ _ ends
  · intro formed
    exact ⟨formed_ends _ _ _ recv last line stops formed, formed_sounds _ _ _ recv last line stops formed⟩

theorem ptl_recv_msg_good_iff (stops : ∃ last, recv last = .again) :
    (∀ evt mem lbuf n, ParseGood evt (turnStart mem lbuf n) ↔ WellFormed evt mem lbuf n) ∧
      (RecvGood isOpen close handle recv line ↔ ∀ count, StateFormed ((ptlStep isOpen close handle recv)^[count] (ptlRecvStart line))) := by
  obtain ⟨last, stops⟩ := stops
  exact ⟨parse_good_iff, recv_good_iff _ _ _ recv line last stops⟩

end Run

section Samples

def emptyLine : Line Unit := ⟨(), Buffer.init 64, [], []⟩

def oneDatagram (bytes : List UInt8) (index : Nat) : Recv := if index = 0 then .data bytes else .again

-- An event with a name and a package.
def named : List UInt8 := [1, 9, 0, 0, 0, 8, 0, 0, 10, 1, 16, 3, 0, 0, 0, 2, 1, 4, 117, 49, 0x0b, 6, 0, 0, 0, 5]

theorem ptl_recv_msg_good_sample : (∀ evt mem lbuf n, ParseGood evt (turnStart mem lbuf n) ↔ WellFormed evt mem lbuf n) ∧
      (RecvGood (fun _ => true) id (fun _ _ => ()) (oneDatagram named) emptyLine ↔
        ∀ count, StateFormed ((ptlStep (fun _ => true) id (fun _ _ => ()) (oneDatagram named))^[count] (ptlRecvStart emptyLine))) :=
  ptl_recv_msg_good_iff _ _ _ _ _ ⟨1, rfl⟩

theorem one_byte_reads_outside :
    ¬ ∀ (σ : Type) (isOpen : σ → Bool) (close : σ → σ) (handle : σ → Msg → σ) (recv : Nat → Recv) (line : Line σ),
      (∃ last, recv last = .again) → RecvGood isOpen close handle recv line := by
  intro claim
  have sound := (claim Unit (fun _ => true) id (fun _ _ => ()) (oneDatagram [9]) emptyLine ⟨1, rfl⟩).2 2
  have pc : ((ptlStep (fun _ => true) id (fun _ _ => ()) (oneDatagram [9]))^[2] (ptlRecvStart emptyLine)).pc =
      .parse (.loop false) false (turnStart (9 :: List.replicate 63 0) 1 none) := by rfl
  have header := (sound _ _ _ pc rfl (by rintro (none | none) <;> exact nomatch none)).1
  exact absurd header (by decide)

end Samples

end Codec.Portal
