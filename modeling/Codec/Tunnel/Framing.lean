import Codec.Tunnel.Session

set_option autoImplicit false

namespace Codec.Tunnel

open Codec.Ems Codec.Lib List
open Codec.Http (Arrival Take sockRead arrived)

variable (slows : List Pkg → Bool)

-- A frame as tunnel_packmsg is given it: its assertion bounds the value.
abbrev Frame := { pkg : Pkg // pkg.val.length ≤ 2048 }

def encode (frames : List Frame) : Str := (frames.map fun frame => frame.val.bytes).flatten

-- The sending side from tunnel_start on: what the peer has been sent, the
-- frames that tunnel_packmsg has reported as packed, and those it appended.
structure Sender where
  buf : Buffer
  notify : Bool
  wire : Str
  accepted : List Frame
  stored : List Frame

def Sender.start : Sender := ⟨Buffer.init 1024, false, [], [], []⟩

inductive SendOp where
  | pack (frame : Frame)
  | send (counts : List Nat)

def Sender.step (sender : Sender) : SendOp → Sender
  | .pack frame =>
    let packed := tunnelPackmsg sender.buf frame.val
    if packed.ret = .err then sender
    else
      { sender with
        buf := packed.buf
        notify := sender.notify || decide (packed.ret = .slowDown)
        accepted := sender.accepted ++ [frame]
        stored := if Fits sender.buf frame.val.val.length then sender.stored ++ [frame] else sender.stored }
  | .send counts =>
    let result := tunnelSendMsg sender.buf sender.notify (counts.map Take.took)
    { sender with
      buf := result.buf
      notify := sender.notify && !result.notified
      wire := sender.wire ++ result.sent }

def Sender.transmitted (sender : Sender) : Str := sender.wire ++ sender.buf.content

def RoomFor (sender : Sender) : SendOp → Prop
  | .pack frame => Fits sender.buf frame.val.val.length
  | .send _ => True

instance (sender : Sender) (op : SendOp) : Decidable (RoomFor sender op) := by
  cases op <;> unfold RoomFor <;> infer_instance

-- The dispatcher keeps what it is handed; `slows` is when it answers
-- EMS_SLOW_DOWN, which ends the rounds of this event but not of the bytes.
def recorder (handed : List Pkg) (pkg : Pkg) : Ret × List Pkg :=
  (if slows (handed ++ [pkg]) then .slowDown else .ok, handed ++ [pkg])

-- What one sess_recv has returned is processed before the next one.
def readPass (state : List Pkg × Str) (read : Str) : List Pkg × Str :=
  let input := state.2 ++ read
  let pass := processAll (recorder slows) id input.length state.1 input true
  (pass.state, pass.input)

def handed (reads : List Str) : List Pkg := (reads.foldl (readPass slows) ([], [])).1

def complete : List Frame → Nat → List Pkg
  | [], _ => []
  | frame :: rest, count =>
    if frame.val.bytes.length ≤ count then frame.val :: complete rest (count - frame.val.bytes.length) else []

def EndsBehindEmpty : List Frame → Nat → Prop
  | [], _ => False
  | frame :: rest, count =>
    (frame.val.val = [] ∧ count = frame.val.bytes.length) ∨
      (frame.val.bytes.length ≤ count ∧ EndsBehindEmpty rest (count - frame.val.bytes.length))

def RoundTrip (frames : List Frame) (reads : List Str) : Prop :=
  (∀ before, before <+: reads → handed slows before = complete frames before.flatten.length) ∧
    handed slows reads = frames.map Subtype.val

theorem parse_header (pkg : Pkg) (body : Str) (short : pkg.val.length ≤ 2048) : tunnelProcessRsp (pkg.header ++ body) =
      if body = [] ∨ body.length < pkg.val.length then .cont
      else .frame ⟨pkg.flgty, pkg.id, body.take pkg.val.length⟩ (body.drop pkg.val.length) := by
  have flgty : ntohs (pkg.header ++ body) = pkg.flgty.toNat := by
    rw [Pkg.header, append_assoc, append_assoc, ntohs_htons]
    exact Nat.mod_eq_of_lt pkg.flgty.toNat_lt
  have len : ntohs ((pkg.header ++ body).drop 2) = pkg.val.length := by
    have behind : (pkg.header ++ body).drop 2 = htons _ ++ (htonl _ ++ body) := rfl
    rw [behind, ntohs_htons]
    omega
  have id : ntohl ((pkg.header ++ body).drop 4) = pkg.id.toNat := by
    have behind : (pkg.header ++ body).drop 4 = htonl _ ++ body := rfl
    rw [behind, ntohl_htonl]
    exact Nat.mod_eq_of_lt pkg.id.toNat_lt
  have value : (pkg.header ++ body).drop sizeTunnelHl = body := rfl
  have behind (count : Nat) : (pkg.header ++ body).drop (count + sizeTunnelHl) = body.drop count := by
    rw [Nat.add_comm, ← drop_drop, value]
  have total : (pkg.header ++ body).length = sizeTunnelHl + body.length := by rw [length_append, header_length]
  unfold tunnelProcessRsp
  rw [flgty, id, value, total]
  dsimp only
  rw [len, behind, UInt16.ofNat_toNat, UInt32.ofNat_toNat]
  by_cases none : body = []
  · rw [if_pos (by rw [none]; rfl), if_pos (.inl none)]
  · have some := length_pos_of_ne_nil none
    rw [if_neg (by omega), if_neg (by omega)]
    by_cases part : body.length < pkg.val.length
    · rw [if_pos (by omega), if_pos (.inr part)]
    · rw [if_neg (by omega), if_neg (not_or.mpr ⟨none, part⟩)]

-- What tunnel_process_rsp hands over of the first `count` bytes: a frame
-- without a value waits for a byte behind it.
def due : List Frame → Nat → List Frame
  | [], _ => []
  | frame :: rest, count =>
    if frame.val.bytes.length < count ∨ (frame.val.bytes.length = count ∧ frame.val.val ≠ []) then
      frame :: due rest (count - frame.val.bytes.length)
    else []

theorem parse_take (frame : Frame) (tail : Str) (count : Nat) (inside : count ≤ (frame.val.bytes ++ tail).length) :
    tunnelProcessRsp ((frame.val.bytes ++ tail).take count) =
      if frame.val.bytes.length < count ∨ (frame.val.bytes.length = count ∧ frame.val.val ≠ []) then
        .frame frame.val (tail.take (count - frame.val.bytes.length)) else .cont := by
  have size := bytes_length frame.val
  by_cases head : count ≤ sizeTunnelHl
  · have short : ((frame.val.bytes ++ tail).take _).length ≤ sizeTunnelHl :=
      Nat.le_trans (length_take_le _ _) head
    rw [tunnelProcessRsp, if_pos short, if_neg]
    rintro (more | ⟨same, some⟩)
    · omega
    · exact some (eq_nil_of_length_eq_zero (by omega))
  · obtain ⟨more, rfl⟩ := Nat.exists_eq_add_of_le (Nat.le_of_not_le head)
    have split : (frame.val.bytes ++ tail).take (sizeTunnelHl + more) =
        frame.val.header ++ (frame.val.val ++ tail).take more := by
      rw [Pkg.bytes, append_assoc, take_append, header_length, Nat.add_sub_cancel_left,
        take_of_length_le (by rw [header_length]; omega)]
    rw [length_append, size, Nat.add_assoc, Nat.add_le_add_iff_left, ← length_append] at inside
    have length : ((frame.val.val ++ tail).take more).length = more := length_take_of_le inside
    have some : (frame.val.val ++ tail).take more ≠ [] := ne_nil_of_length_pos (by omega)
    rw [split, parse_header _ _ frame.property, length, size]
    by_cases part : more < frame.val.val.length
    · rw [if_pos (.inr part), if_neg]
      omega
    · have value : ((frame.val.val ++ tail).take more).take frame.val.val.length = frame.val.val := by
        rw [take_take, Nat.min_eq_left (Nat.le_of_not_lt part), take_left]
      have behind : ((frame.val.val ++ tail).take more).drop frame.val.val.length =
          tail.take (sizeTunnelHl + more - (sizeTunnelHl + frame.val.val.length)) := by
        rw [drop_take, drop_left, Nat.add_sub_add_left]
      rw [if_neg (not_or.mpr ⟨some, part⟩), value, behind, if_pos]
      by_cases same : more = frame.val.val.length
      · right
        exact ⟨by omega, ne_nil_of_length_pos (by omega)⟩
      · omega

@[simp] theorem encode_nil : encode [] = [] := rfl

@[simp] theorem encode_cons (frame : Frame) (rest : List Frame) : encode (frame :: rest) = frame.val.bytes ++ encode rest := rfl

theorem process_all_due (frames : List Frame) (count fuel : Nat) (log : List Pkg) (again : Bool)
    (inside : count ≤ (encode frames).length) (enough : count ≤ fuel) :
    let pass := processAll (recorder slows) id fuel log ((encode frames).take count) again
    pass.ret = .cont ∧ pass.state = log ++ (due frames count).map Subtype.val ∧
      pass.input = ((encode frames).take count).drop (encode (due frames count)).length := by
  induction fuel generalizing frames count log again with
  | zero =>
    have none : count = 0 := Nat.le_zero.mp enough
    subst none
    cases frames with
    | nil => simp [processAll, due]
    | cons frame rest => simp [processAll, due, sizeTunnelHl]
  | succ fuel ih =>
    cases frames with
    | nil =>
      have none : tunnelProcessRsp [] = .cont := rfl
      simp [processAll, due, none]
    | cons frame rest =>
      have parsed := parse_take _ (encode rest) _ inside
      rw [encode_cons] at inside ⊢
      rw [processAll, parsed, due]
      by_cases now : frame.val.bytes.length < count ∨ (frame.val.bytes.length = count ∧ frame.val.val ≠ [])
      · have size := bytes_length frame.val
        simp only [sizeTunnelHl] at size
        rw [length_append] at inside
        have onward (again : Bool) := ih rest (count - frame.val.bytes.length) (log ++ [frame.val]) again
          (by omega) (by omega)
        have behind : (frame.val.bytes ++ encode rest).take count =
            frame.val.bytes ++ (encode rest).take (count - frame.val.bytes.length) := by
          rw [take_append, take_of_length_le (by omega)]
        rw [if_pos now, if_pos now, behind, encode_cons, length_append, ← drop_drop, drop_left,
          map_cons, append_cons]
        simp only [recorder]
        by_cases slow : slows (log ++ [frame.val]) = true
        · rw [if_pos slow]
          exact onward _
        · rw [if_neg slow]
          exact onward _
      · rw [if_neg now, if_neg now]
        simp

variable (frames : List Frame) (count : Nat) (sender : Sender) (op : SendOp) (ops : List SendOp)

theorem due_encode_le : (encode (due frames count)).length ≤ count := by
  induction frames generalizing count with
  | nil => exact Nat.zero_le _
  | cons frame rest ih =>
    rw [due]
    split
    · have more := ih (count - frame.val.bytes.length)
      rw [encode_cons, length_append]
      omega
    · exact Nat.zero_le _

theorem due_split (first second : Nat) (order : first ≤ second) : ∃ left, frames = due frames first ++ left ∧
      due frames second = due frames first ++ due left (second - (encode (due frames first)).length) := by
  induction frames generalizing first second with
  | nil => exact ⟨[], rfl, rfl⟩
  | cons frame rest ih =>
    by_cases now : frame.val.bytes.length < first ∨ (frame.val.bytes.length = first ∧ frame.val.val ≠ [])
    · obtain ⟨left, whole, later⟩ := ih (first - frame.val.bytes.length) (second - frame.val.bytes.length) (by omega)
      have then_ : frame.val.bytes.length < second ∨ (frame.val.bytes.length = second ∧ frame.val.val ≠ []) := by
        rcases now with more | ⟨same, some⟩
        · omega
        · rcases Nat.lt_or_ge first second with more | less
          · omega
          · exact .inr ⟨by omega, some⟩
      have early : due (frame :: rest) _ = frame :: due rest _ := if_pos now
      have late : due (frame :: rest) _ = frame :: due rest _ := if_pos then_
      refine ⟨left, ?_, ?_⟩
      · rw [early, cons_append, ← whole]
      · rw [early, late, later, encode_cons, length_append, cons_append, Nat.sub_add_eq]
    · have early : due (frame :: rest) _ = [] := if_neg now
      exact ⟨frame :: rest, by rw [early]; rfl, by rw [early]; rfl⟩

theorem encode_append (first second : List Frame) : encode (first ++ second) = encode first ++ encode second := by simp [encode]

theorem reads_due (frames : List Frame) (reads : List Str)
    (stream : reads.flatten <+: encode frames) : reads.foldl (readPass slows) ([], []) =
      ((due frames reads.flatten.length).map Subtype.val,
        reads.flatten.drop (encode (due frames reads.flatten.length)).length) := by
  induction reads using reverseRecOn with
  | nil =>
    have none : due frames 0 = [] := by
      cases frames with
      | nil => rfl
      | cons frame rest => simp [due, sizeTunnelHl]
    simp [none]
  | append_singleton reads read ih =>
    rw [flatten_append, flatten_singleton] at stream ⊢
    have former := ih ((prefix_append _ _).trans stream)
    have order : reads.flatten.length ≤ (reads.flatten ++ read).length := by simp
    obtain ⟨left, whole, later⟩ := due_split _ _ _ order
    have bound := due_encode_le frames reads.flatten.length
    generalize due _ _ = first at former whole later bound
    have taken : reads.flatten ++ read = (encode _).take _ := prefix_iff_eq_take.mp stream
    rw [whole, encode_append] at taken stream
    have inside := stream.length_le
    generalize (reads.flatten ++ read).length = count at taken later inside ⊢
    have input : reads.flatten.drop (encode first).length ++ read = (encode left).take (count - (encode first).length) := by
      rw [← drop_append_of_le_length bound, taken, drop_take, drop_left]
    rw [length_append] at inside
    have passed := process_all_due slows left (count - (encode first).length)
      (reads.flatten.drop _ ++ read).length (first.map Subtype.val) true (by omega)
      (by rw [input, length_take]; omega)
    rw [foldl_append, former, foldl_cons, foldl_nil, readPass]
    rw [← input] at passed
    rw [passed.2.1, passed.2.2, later, map_append, encode_append, length_append, ← drop_drop,
      drop_append_of_le_length bound]

theorem complete_iff_due : (due frames count).map Subtype.val = complete frames count ↔ ¬ EndsBehindEmpty frames count := by
  induction frames generalizing count with
  | nil => exact iff_of_true rfl not_false
  | cons frame rest ih =>
    have later := ih (count - frame.val.bytes.length)
    rw [due, complete, EndsBehindEmpty]
    by_cases now : frame.val.bytes.length < count ∨ (frame.val.bytes.length = count ∧ frame.val.val ≠ [])
    · have there : frame.val.bytes.length ≤ count := by omega
      have here : ¬ (frame.val.val = [] ∧ count = frame.val.bytes.length) := by
        rintro ⟨none, same⟩
        rcases now with more | ⟨_, some⟩
        · omega
        · exact some none
      rw [if_pos now, if_pos there, map_cons, cons.injEq, and_iff_right rfl, later, or_iff_right here,
        and_iff_right there]
    · rw [if_neg now]
      by_cases there : frame.val.bytes.length ≤ count
      · have same : count = frame.val.bytes.length := by omega
        have none : frame.val.val = [] := by
          by_contra some
          exact now (.inr ⟨same.symm, some⟩)
        rw [if_pos there]
        exact iff_of_false (fun equal => by cases equal) (not_not_intro (.inl ⟨none, same⟩))
      · rw [if_neg there]
        apply iff_of_true rfl
        rintro (⟨_, same⟩ | ⟨more, _⟩)
        · omega
        · exact there more

theorem due_length_le : (due frames count).length ≤ frames.length := by
  induction frames generalizing count with
  | nil => exact Nat.le_refl _
  | cons frame rest ih =>
    rw [due]
    split
    · exact Nat.succ_le_succ (ih _)
    · exact Nat.zero_le _

theorem complete_all : complete frames (encode frames).length = frames.map Subtype.val := by
  induction frames with
  | nil => rfl
  | cons frame rest ih =>
    rw [complete, encode_cons, length_append, if_pos (Nat.le_add_right _ _), Nat.add_sub_cancel_left, ih]
    rfl

theorem process_all_again (fuel : Nat) (log : List Pkg) (input : Str) (first second : Bool) :
    let left := processAll (recorder slows) id fuel log input first
    let right := processAll (recorder slows) id fuel log input second
    left.ret = right.ret ∧ left.state = right.state ∧ left.input = right.input := by
  induction fuel generalizing log input first second with
  | zero => exact ⟨rfl, rfl, rfl⟩
  | succ fuel ih =>
    simp only [processAll]
    cases tunnelProcessRsp _ with
    | cont => exact ⟨rfl, rfl, rfl⟩
    | invalid => exact ⟨rfl, rfl, rfl⟩
    | frame pkg rest =>
      simp only [recorder]
      by_cases slow : slows (log ++ [pkg]) = true
      · rw [if_pos slow]
        exact ih _ rest _ _
      · rw [if_neg slow]
        exact ih _ rest _ _

theorem parse_rest (input rest : Str) (pkg : Pkg) (parsed : tunnelProcessRsp input = .frame pkg rest) :
    rest.length < input.length := by
  unfold tunnelProcessRsp at parsed
  dsimp only at parsed
  split at parsed
  · cases parsed
  · split at parsed
    · cases parsed
    · split at parsed
      · cases parsed
      · cases parsed
        simp only [sizeTunnelHl, length_drop] at *
        omega

theorem parse_cont (input : Str) (parsed : tunnelProcessRsp input = .cont) : input.length < 2056 := by
  unfold tunnelProcessRsp at parsed
  dsimp only at parsed
  split at parsed
  · simp only [sizeTunnelHl] at *
    omega
  · split at parsed
    · cases parsed
    · split at parsed
      · simp only [sizeTunnelHl] at *
        omega
      · cases parsed

theorem process_all_room (fuel : Nat) (log : List Pkg) (input : Str) (again : Bool)
    (enough : input.length ≤ fuel) : (processAll (recorder slows) id fuel log input again).input.length < 2056 := by
  induction fuel generalizing log input again with
  | zero =>
    rw [eq_nil_of_length_eq_zero (Nat.le_zero.mp enough)]
    exact Nat.succ_pos _
  | succ fuel ih =>
    rw [processAll]
    cases parsed : tunnelProcessRsp _ with
    | cont => exact parse_cont _ parsed
    | invalid => exact Nat.succ_pos _
    | frame pkg rest =>
      have shorter := parse_rest _ rest pkg parsed
      simp only [recorder]
      by_cases slow : slows (log ++ [pkg]) = true
      · rw [if_pos slow]
        exact ih _ rest _ (by omega)
      · rw [if_neg slow]
        exact ih _ rest _ (by omega)

theorem recv_msg_passes (fuel : Nat) (log : List Pkg) (input : Str) (stream : List Arrival)
    (fine : Arrival.eof ∉ stream ∧ Arrival.failed ∉ stream) (room : input.length < 2056) (enough : stream.length < fuel) :
    let result := tunnelRecvMsg (recorder slows) id (fun _ => true) fuel log input stream
    (∃ reads : List Str, reads.flatten ++ arrived result.stream = arrived stream ∧
      (result.state, result.input) = reads.foldl (readPass slows) (log, input)) ∧
      (Arrival.eof ∉ result.stream ∧ Arrival.failed ∉ result.stream) ∧ result.input.length < 2056 := by
  induction fuel generalizing log input stream with
  | zero => exact absurd enough (Nat.not_lt_zero _)
  | succ fuel ih =>
    have got := Codec.Http.sock_read_spec (sizeBufIn - input.length) stream
    have ending := Codec.Http.sock_read_fine (sizeBufIn - input.length) _ fine
    rw [tunnelRecvMsg, if_neg (Bool.noConfusion)]
    generalize sockRead _ stream = reply at got ending ⊢
    obtain ⟨how, bytes, rest⟩ := reply
    have inputs := process_all_room slows _ log (input ++ bytes) true (Nat.le_refl _)
    have whole : readPass slows (log, input) bytes =
        ((processAll _ id _ log _ true).state,
          (processAll _ id _ log _ true).input) := rfl
    have one : [bytes].flatten ++ arrived rest = arrived stream := by
      rw [flatten_singleton]
      exact got.2.1
    rcases ending.1 with rfl | rfl
    · obtain ⟨size, shrunk⟩ := got.2.2.1 rfl
      simp only [sizeBufIn] at size shrunk
      have some : bytes ≠ [] := ne_nil_of_length_pos (by omega)
      dsimp only
      rw [if_neg some]
      generalize processAll _ id _ log _ true = pass at inputs whole ⊢
      split
      · exact ⟨⟨[bytes], one, whole.symm⟩, ending.2, inputs⟩
      · split
        · obtain ⟨⟨reads, bytesLeft, folded⟩, kept⟩ := ih _ _ rest ending.2 inputs (by omega)
          refine ⟨⟨bytes :: reads, ?_, ?_⟩, kept⟩
          · rw [flatten_cons, append_assoc, bytesLeft]
            exact got.2.1
          · rw [folded, foldl_cons, whole]
        · exact ⟨⟨[bytes], one, whole.symm⟩, ending.2, inputs⟩
    · have same := process_all_again slows (input ++ bytes).length log (input ++ bytes) false true
      refine ⟨⟨[bytes], one, ?_⟩, ending.2, process_all_room slows _ log _ false (Nat.le_refl _)⟩
      rw [foldl_cons, foldl_nil, whole, ← same.2.1, ← same.2.2]

-- The receiving side: what was handed over, tun->buf_in and what the socket holds.
structure Receiver where
  log : List Pkg
  input : Str
  stream : List Arrival

def Receiver.start : Receiver := ⟨[], [], []⟩

-- A READ event; `more` has arrived since the last one.
def Receiver.read (receiver : Receiver) (more : List Arrival) : Receiver :=
  let stream := receiver.stream ++ more
  let result := tunnelRecvMsg (recorder slows) id (fun _ => true) (stream.length + 1) receiver.log receiver.input stream
  ⟨result.state, result.input, result.stream⟩

theorem reads_pass (events : List (List Arrival))
    (fine : Arrival.eof ∉ events.flatten ∧ Arrival.failed ∉ events.flatten) :
    let receiver := run (Receiver.read slows) Receiver.start events
    (∃ reads : List Str, reads.flatten ++ arrived receiver.stream = arrived events.flatten ∧
      (receiver.log, receiver.input) = reads.foldl (readPass slows) ([], [])) ∧
      (Arrival.eof ∉ receiver.stream ∧ Arrival.failed ∉ receiver.stream) ∧ receiver.input.length < 2056 := by
  induction events using reverseRecOn with
  | nil => exact ⟨⟨[], rfl, rfl⟩, fine, Nat.succ_pos _⟩
  | append_singleton events more ih =>
    simp only [flatten_append, flatten_singleton, mem_append, not_or] at fine ⊢
    obtain ⟨⟨before, bytes, folded⟩, calm, room⟩ := ih ⟨fine.1.1, fine.2.1⟩
    rw [run_append, run_cons, run_nil]
    generalize run _ _ _ = receiver at bytes folded calm room ⊢
    have calmer : Arrival.eof ∉ receiver.stream ++ more ∧ Arrival.failed ∉ receiver.stream ++ more := by
      simp only [mem_append, not_or]
      exact ⟨⟨calm.1, fine.1.2⟩, calm.2, fine.2.2⟩
    obtain ⟨⟨reads, onward, whole⟩, kept⟩ := recv_msg_passes slows _ _ _ _ calmer room (Nat.lt_succ_self _)
    refine ⟨⟨before ++ reads, ?_, ?_⟩, kept⟩
    · rw [flatten_append, append_assoc, Codec.Http.arrived_append, ← bytes, append_assoc, ← Codec.Http.arrived_append]
      exact congrArg _ onward
    · rw [foldl_append, ← folded]
      exact whole

theorem step_transmitted (books : sender.transmitted = encode sender.stored) :
    (sender.step op).transmitted = encode (sender.step op).stored := by
  cases op with
  | pack frame =>
    dsimp only [Sender.step]
    by_cases refused : (tunnelPackmsg sender.buf frame.val).ret = .err
    · rwa [if_pos refused]
    · rw [if_neg refused]
      have taken := fun none => refused ((packmsg_ret _ _).mpr none)
      dsimp only [Sender.transmitted]
      by_cases fits : Fits sender.buf frame.val.val.length
      · rw [if_pos fits, packmsg_content _ _ fits taken, ← append_assoc, encode_append, ← books]
        simp [Sender.transmitted]
      · rw [if_neg fits, (packmsg_lost _ _ fits).2]
        exact books
  | send counts =>
    have fine : Take.failed ∉ counts.map Take.took := by simp
    dsimp only [Sender.step, Sender.transmitted]
    rw [append_assoc, send_msg_content _ _ _ fine]
    exact books

theorem step_stored (room : RoomFor sender op) (same : sender.stored = sender.accepted) :
    (sender.step op).stored = (sender.step op).accepted := by
  cases op with
  | pack frame =>
    dsimp only [Sender.step]
    split
    · exact same
    · change Fits _ _ at room
      rw [if_pos room, same]
  | send counts => exact same

theorem step_lost (lost : Nat) (fewer : sender.stored.length + lost ≤ sender.accepted.length) :
    (sender.step op).stored.length + lost ≤ (sender.step op).accepted.length ∧
      (¬ RoomFor sender op → (sender.step op).stored.length + (lost + 1) ≤ (sender.step op).accepted.length) := by
  cases op with
  | pack frame =>
    dsimp only [Sender.step]
    by_cases fits : Fits sender.buf frame.val.val.length
    · refine ⟨?_, fun unfit => absurd fits unfit⟩
      split
      · exact fewer
      · simp only [length_append, length_singleton]
        omega
    · rw [if_neg (packmsg_lost _ _ fits).1]
      simp only [if_neg fits, length_append, length_singleton]
      exact ⟨by omega, fun _ => by omega⟩
  | send counts => exact ⟨fewer, fun unfit => absurd trivial unfit⟩

theorem run_stored (room : AllSteps Sender.step RoomFor sender ops)
    (same : sender.stored = sender.accepted) : (run Sender.step sender ops).stored = (run Sender.step sender ops).accepted :=
  run_keeps _ _ _ sender ops same
    (fun sender op same room => step_stored sender op room same) room

theorem run_transmitted (books : sender.transmitted = encode sender.stored) :
    (run Sender.step sender ops).transmitted = encode (run Sender.step sender ops).stored := by
  induction ops generalizing sender with
  | nil => exact books
  | cons op rest ih => exact ih _ (step_transmitted _ op books)

theorem run_fewer (lost : Nat) (fewer : sender.stored.length + lost ≤ sender.accepted.length) :
    (run Sender.step sender ops).stored.length + lost ≤ (run Sender.step sender ops).accepted.length := by
  induction ops generalizing sender with
  | nil => exact fewer
  | cons op rest ih => exact ih _ (step_lost _ op lost fewer).1

theorem run_lost (unfit : ¬ AllSteps Sender.step RoomFor sender ops) (fewer : sender.stored.length ≤ sender.accepted.length) :
    (run Sender.step sender ops).stored.length < (run Sender.step sender ops).accepted.length := by
  induction ops generalizing sender with
  | nil => exact absurd trivial unfit
  | cons op rest ih =>
    have lost := step_lost _ op 0 fewer
    by_cases room : RoomFor sender op
    · exact ih _ (fun steps => unfit ⟨room, steps⟩) lost.1
    · exact run_fewer _ rest 1 (lost.2 room)

theorem frames_round_trip (slows : List Pkg → Bool) (ops : List SendOp) (reads : List Str)
    (whole : reads.flatten = (run Sender.step Sender.start ops).transmitted) :
    RoundTrip slows (run Sender.step Sender.start ops).accepted reads ↔ AllSteps Sender.step RoomFor Sender.start ops ∧
        ∀ before, before <+: reads → ¬ EndsBehindEmpty (run Sender.step Sender.start ops).accepted before.flatten.length := by
  have stream := whole.trans (run_transmitted _ ops rfl)
  generalize ended : run _ _ ops = sender at whole stream ⊢
  have passes (before : List Str) (early : before <+: reads) :
      handed slows before = (due sender.stored before.flatten.length).map Subtype.val := by
    have part : before.flatten <+: encode sender.stored := by
      obtain ⟨after, joined⟩ := early
      rw [← stream, ← joined, flatten_append]
      exact prefix_append _ _
    exact congrArg _ (reads_due _ _ _ part)
  constructor
  · rintro ⟨timely, all⟩
    have room : AllSteps Sender.step RoomFor Sender.start ops := by
      by_contra unfit
      have fewer := run_lost _ ops unfit (Nat.le_refl _)
      have count := congrArg length ((passes _ (prefix_refl _)).symm.trans all)
      have bound := due_length_le sender.stored reads.flatten.length
      rw [ended] at fewer
      rw [length_map, length_map] at count
      omega
    have same := run_stored _ ops room rfl
    rw [ended] at same
    refine ⟨room, fun before early => ?_⟩
    rw [← complete_iff_due, ← same, ← passes _ early, same]
    exact timely _ early
  · rintro ⟨room, apart⟩
    have same := run_stored _ ops room rfl
    rw [ended] at same
    have timely (before : List Str) (early : before <+: reads) :
        handed slows before = complete sender.accepted before.flatten.length := by
      rw [passes _ early, same]
      exact (complete_iff_due _ _).mpr (apart _ early)
    refine ⟨timely, ?_⟩
    rw [timely _ (prefix_refl _), stream, same, complete_all]

theorem frames_round_trip_sample :
    let ops := [SendOp.pack ⟨⟨msgTypeWeb, 7, [1, 2, 3]⟩, by decide⟩, .send [4], .pack ⟨⟨msgTypeWeb, 9, [4]⟩, by decide⟩]
    let reads : List Str := [[0, 2, 0], [3, 0, 0, 0, 7, 1, 2, 3, 0, 2, 0, 1, 0], [0, 0, 9, 4]]
    RoundTrip (fun _ => false) (run Sender.step Sender.start ops).accepted reads ↔
      AllSteps Sender.step RoomFor Sender.start ops ∧
        ∀ before, before <+: reads → ¬ EndsBehindEmpty (run Sender.step Sender.start ops).accepted before.flatten.length :=
  frames_round_trip _ _ _ (by decide +kernel)

theorem empty_frame_waits : ¬ ∀ slows ops reads, reads.flatten = (run Sender.step Sender.start ops).transmitted →
      RoundTrip slows (run Sender.step Sender.start ops).accepted reads := by
  intro claim
  have all := (claim (fun _ => false) [.pack ⟨⟨msgTypeWeb, 7, []⟩, by decide⟩] [[0, 2, 0, 0, 0, 0, 0, 7]]
    (by decide +kernel)).2
  have none : handed (fun _ => false) [[0, 2, 0, 0, 0, 0, 0, 7]] = [] := by decide
  rw [none] at all
  revert all
  decide +kernel

-- At any moment each byte that arrived is in a frame handed over, in buf_in or
-- still on the socket; buf_in holds no frame that is due.
theorem frames_delivered (slows : List Pkg → Bool) (ops : List SendOp) (events : List (List Arrival))
    (room : AllSteps Sender.step RoomFor Sender.start ops)
    (fine : Arrival.eof ∉ events.flatten ∧ Arrival.failed ∉ events.flatten)
    (sent : arrived events.flatten <+: (run Sender.step Sender.start ops).transmitted) :
    let receiver := run (Receiver.read slows) Receiver.start events
    ∃ whole : List Frame, whole <+: (run Sender.step Sender.start ops).accepted ∧ receiver.log = whole.map Subtype.val ∧
      encode whole ++ receiver.input ++ arrived receiver.stream = arrived events.flatten ∧
      whole = due (run Sender.step Sender.start ops).accepted (encode whole ++ receiver.input).length := by
  intro receiver
  obtain ⟨⟨reads, bytes, folded⟩, -⟩ := reads_pass slows events fine
  rw [run_transmitted _ ops rfl, run_stored _ ops room rfl, ← bytes] at sent
  generalize (run Sender.step _ ops).accepted = accepted at sent ⊢
  have part := (prefix_append _ _).trans sent
  have passed := folded.trans (reads_due slows _ _ part)
  obtain ⟨left, split, -⟩ := due_split accepted _ _ (Nat.le_refl _)
  have bound := due_encode_le accepted reads.flatten.length
  have taken : encode (due accepted reads.flatten.length) ++ receiver.input = reads.flatten := by
    rw [(Prod.mk.inj passed).2]
    have head : encode (due accepted reads.flatten.length) <+: encode accepted := by
      conv => rhs; rw [split, encode_append]
      exact prefix_append _ _
    exact prefix_iff_eq_append.mp (prefix_of_prefix_length_le head part bound)
  refine ⟨_, ⟨left, split.symm⟩, (Prod.mk.inj passed).1, ?_, ?_⟩
  · rw [taken, bytes]
  · rw [taken]

-- One frame arrives in three reads, the last of which ends inside the second.
theorem frames_delivered_sample :
    let sender := run Sender.step Sender.start [.pack ⟨⟨msgTypeWeb, 7, [1]⟩, by decide⟩, .pack ⟨⟨msgTypeWeb, 9, []⟩, by decide⟩]
    let receiver := run (Receiver.read fun _ => true) Receiver.start
      [[.byte 0, .again, .byte 2], [.byte 0, .byte 1, .byte 0], [.byte 0, .byte 0, .byte 7, .byte 1, .byte 0, .byte 2]]
    ∃ whole : List Frame, whole <+: sender.accepted ∧ receiver.log = whole.map Subtype.val ∧
      encode whole ++ receiver.input ++ arrived receiver.stream = [0, 2, 0, 1, 0, 0, 0, 7, 1, 0, 2] ∧
      whole = due sender.accepted (encode whole ++ receiver.input).length :=
  frames_delivered _ _ _ (by decide +kernel) (by decide) (by decide +kernel)

end Codec.Tunnel
