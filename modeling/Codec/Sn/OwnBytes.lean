import Mathlib.Data.List.GetD
import Mathlib.Data.List.TakeWhile
import Codec.Sn.Tables
import Codec.Sn.Udp

set_option autoImplicit false

namespace Codec.Sn

open List

def received (datagram rest : Bytes) : Bytes := (datagram ++ rest).take n2nSnPktbufSize

def bread (datagram : Bytes) : Nat := min datagram.length n2nSnPktbufSize

def SizedRight (datagram : Bytes) : Prop := 2 ≤ datagram.length ∧ ntohs (slice datagram 0 2) = datagram.length

structure EdgeFormed (edge : Edge) : Prop where
  community : edge.community.length = 32
  mac : edge.mac.length = 32
  uuid : edge.uuid.length = 64
  device : edge.device.length = 48

def ActsAlone (datagram : Bytes) : Prop :=
  ∀ (s : Udp) (rx : Rx) (rest other : Bytes), (∀ edge ∈ s.edges, EdgeFormed edge) →
    n2nSnPktbufSize ≤ datagram.length + rest.length → n2nSnPktbufSize ≤ datagram.length + other.length →
    processUdp s rx (received datagram rest) (bread datagram) = processUdp s rx (received datagram other) (bread datagram)

def HasItsFields (datagram : Bytes) : Prop :=
  if datagram.length ≤ 4 then False
  else if datagram.length = 5 then datagram.getD 4 0 ∉ [0x00, 0x40, 0x15]
  else
    let msgType := ntohs (slice datagram 4 2)
    if msgType = msgP2pRegister then
      datagram.length = 150 ∨ 183 ≤ datagram.length ∨ (datagram.length = 182 ∧ 0 ∈ slice datagram 118 64)
    else if msgType = msgP2pGet then 38 ≤ datagram.length
    else if msgType = msgP2pHolePunch ∨ msgType = msgP2pHolePunchAck then 20 ≤ datagram.length
    else if msgType = shareP2pDevinfo then 70 ≤ datagram.length
    else if msgType = requestForwardInfoCmd then 71 ≤ datagram.length ∨ 0 ∈ datagram.drop 6
    else True

section Bytes

variable (buf : Bytes) (datagram rest : Bytes)

theorem slice_own (start len : Nat) (inside : start + len ≤ datagram.length) :
    slice (datagram ++ rest) start len = slice datagram start len := by
  rw [slice, slice, drop_append_of_le_length (by omega), take_append_of_le_length (by rw [length_drop]; omega)]

theorem slice_get (start len i : Nat) (inside : i < len) : (slice buf start len).getD i 0 = buf.getD (start + i) 0 := by
  rw [slice, getD_eq_getElem?_getD, getD_eq_getElem?_getD, getElem?_take_of_lt inside, getElem?_drop]

theorem ntohs_slice (start : Nat) : ntohs (slice buf start 2) = (buf.getD start 0).toNat * 256 + (buf.getD (start + 1) 0).toNat := by
  rw [ntohs, slice_get buf _ 2 0 (by omega), slice_get buf _ 2 1 (by omega), Nat.add_zero]

theorem received_low (i : Nat) (own : i < datagram.length) (inside : i < n2nSnPktbufSize) :
    (received datagram rest).getD i 0 = datagram.getD i 0 := by
  rw [received, getD_eq_getElem?_getD, getD_eq_getElem?_getD, getElem?_take_of_lt inside, getElem?_append_left own]

theorem received_high (datagram : Bytes) (byte : UInt8) (i : Nat) (behind : datagram.length ≤ i) (inside : i < n2nSnPktbufSize) :
    (received datagram (List.replicate n2nSnPktbufSize byte)).getD i 0 = byte := by
  rw [received, getD_eq_getElem?_getD, getElem?_take_of_lt inside, getElem?_append_right behind,
    getElem?_replicate_of_lt (by omega)]
  rfl

theorem received_short (fits : datagram.length ≤ n2nSnPktbufSize) :
    received datagram rest = datagram ++ rest.take (n2nSnPktbufSize - datagram.length) := by
  rw [received, take_append, take_of_length_le fits]

theorem received_long (long : n2nSnPktbufSize ≤ datagram.length) : received datagram rest = datagram.take n2nSnPktbufSize := by
  rw [received, take_append_of_le_length long]

theorem slice_length (start len : Nat) (inside : start + len ≤ buf.length) : (slice buf start len).length = len := by
  rw [slice, length_take, length_drop]
  omega

theorem received_length (enough : n2nSnPktbufSize ≤ datagram.length + rest.length) :
    (received datagram rest).length = n2nSnPktbufSize := by
  rw [received, length_take, length_append]
  omega

theorem cString_own (text rest : Bytes) (ends : 0 ∈ text) : cString (text ++ rest) = cString text := by
  induction text with
  | nil => exact nomatch ends
  | cons byte text ih =>
    rw [cons_append, cString, cString, takeWhile_cons, takeWhile_cons]
    by_cases zero : byte = 0
    · rw [if_neg (by simp [zero]), if_neg (by simp [zero])]
    · rw [if_pos (by simp [zero]), if_pos (by simp [zero])]
      exact congrArg _ (ih ((mem_cons.mp ends).resolve_left fun same => zero same.symm))

theorem cString_ended (text : Bytes) (zeros : Nat) (zeroless : 0 ∉ text) : cString (text ++ List.replicate zeros 0) = text := by
  induction text with
  | nil => cases zeros <;> rfl
  | cons byte text ih =>
    rw [cons_append, cString, takeWhile_cons, if_pos (by simpa using fun zero : byte = 0 => zeroless (zero ▸ mem_cons_self))]
    exact congrArg _ (ih fun there => zeroless (mem_cons_of_mem byte there))

theorem cString_whole (text : Bytes) (zeroless : 0 ∉ text) : cString text = text :=
  takeWhile_eq_self_iff.mpr fun byte there => decide_eq_true fun zero : byte = 0 => zeroless (zero ▸ there)

end Bytes

section Enough

variable (s : Udp) (rx : Rx)

theorem uuid_congr (reg : P2pRegister) (uuid other : Bytes) (edges : List Edge) (sock : NSock) (now : Nat)
    (text : cString (uuid.take 65) = cString (other.take 65)) (stored : uuid.take 64 = other.take 64) :
    updateEdgeUuid reg uuid edges sock now = updateEdgeUuid reg other edges sock now := by
  simp only [updateEdgeUuid, sameUuid, text, stored]

theorem request_congr (buf other : Bytes) (text : cString ((buf.drop 6).take 65) = cString ((other.drop 6).take 65)) :
    processRequest s rx buf = processRequest s rx other := by
  simp only [processRequest, sameUuid, text]

variable (datagram rest : Bytes)

theorem register_own (has : datagram.length = 150 ∨ 183 ≤ datagram.length ∨ (datagram.length = 182 ∧ 0 ∈ slice datagram 118 64)) :
    processRegister s rx (datagram ++ rest) datagram.length = processRegister s rx datagram datagram.length := by
  have fields : p2pRegister (datagram ++ rest) = p2pRegister datagram := by
    rw [p2pRegister, p2pRegister, slice_own _ _ _ _ (by omega), slice_own _ _ _ _ (by omega), slice_own _ _ _ _ (by omega)]
  rw [processRegister, processRegister, fields]
  by_cases plain : datagram.length = 6 + 144
  · rw [if_pos plain, if_pos plain]
  · rw [if_neg plain, if_neg plain]
    refine congrArg _ (uuid_congr _ _ _ _ _ _ ?_ (slice_own _ rest 118 64 (by omega)))
    rcases has with is150 | enough | ⟨is182, ends⟩
    · omega
    · exact congrArg _ (slice_own _ rest 118 65 enough)
    · have whole : slice _ 118 64 = datagram.drop 118 := take_of_length_le (by rw [length_drop]; omega)
      rw [whole] at ends
      rw [drop_append_of_le_length (by omega), take_append,
        take_of_length_le (l := datagram.drop 118) (by rw [length_drop]; omega), cString_own _ _ ends]

theorem request_own (has : 71 ≤ datagram.length ∨ 0 ∈ datagram.drop 6) :
    processRequest s rx (datagram ++ rest) = processRequest s rx datagram := by
  refine request_congr s rx _ _ ?_
  by_cases enough : 71 ≤ datagram.length
  · exact congrArg _ (slice_own _ rest 6 65 enough)
  · have ends := has.resolve_left enough
    have long : 6 ≤ datagram.length := by
      by_contra short
      rw [drop_eq_nil_of_le (by omega)] at ends
      exact nomatch ends
    rw [drop_append_of_le_length long, take_append, take_of_length_le (l := datagram.drop 6) (by rw [length_drop]; omega),
      cString_own _ _ ends]

theorem hole_own (has : 20 ≤ datagram.length) :
    processHole s rx (datagram ++ rest) datagram.length = processHole s rx datagram datagram.length := by
  have front : (datagram ++ rest).take 6 = datagram.take 6 := take_append_of_le_length (by omega)
  have back : (datagram ++ rest).drop 8 = datagram.drop 8 ++ rest := drop_append_of_le_length (by omega)
  have shape : (datagram.take 6 ++ [1, 0] ++ datagram.drop 8).length = datagram.length := by simp; omega
  rw [processHole, processHole, slice_own _ _ _ _ (by omega), slice_own _ _ _ _ (by omega), front, back, ← append_assoc,
    take_append_of_le_length (Nat.le_of_eq shape.symm)]

theorem no_kind (buf : Bytes) (udpSize : Nat) (high : buf.getD 4 0 ∉ [0x00, 0x40, 0x15]) : processUdp s rx buf udpSize = (s, []) := by
  have apart : ∀ byte : UInt8, byte ∈ [0x00, 0x40, 0x15] → (buf.getD 4 0).toNat ≠ byte.toNat := fun byte listed same =>
    high (UInt8.toNat_inj.mp same ▸ listed)
  have notZero := apart 0x00 (by decide)
  have notShare := apart 0x40 (by decide)
  have notForward := apart 0x15 (by decide)
  have low := (buf.getD (4 + 1) 0).toNat_lt
  have other : ∀ msgType, msgType / 256 ∈ [0x00, 0x40, 0x15] → ntohs (slice buf 4 2) ≠ msgType := by
    intro msgType listed same
    rw [ntohs_slice] at same
    simp only [mem_cons, not_mem_nil, or_false] at listed
    have zero : (0x00 : UInt8).toNat = 0 := rfl
    have share : (0x40 : UInt8).toNat = 0x40 := rfl
    have forward : (0x15 : UInt8).toNat = 0x15 := rfl
    omega
  rw [processUdp]
  split
  · rfl
  · rw [if_neg (other _ (by decide)), if_neg (other _ (by decide)), if_neg (other _ (by decide)), if_neg (other _ (by decide)),
      if_neg (other _ (by decide)), if_neg (other _ (by decide))]

theorem fields_own (has : HasItsFields datagram) :
    processUdp s rx (datagram ++ rest) datagram.length = processUdp s rx datagram datagram.length := by
  rw [HasItsFields] at has
  split at has
  · exact has.elim
  split at has
  · exact (no_kind s rx _ _ (by rwa [getD_append _ _ _ _ (by omega)])).trans (no_kind s rx _ _ has).symm
  rw [processUdp, processUdp, slice_own _ _ _ _ (by omega), slice_own _ rest 4 2 (by omega)]
  refine ite_congr rfl (fun _ => rfl) fun _ => ?_
  refine ite_congr rfl (fun register => ?_) fun notRegister => ?_
  · rw [if_pos register] at has
    exact congrArg (·, []) (register_own s rx _ rest has)
  rw [if_neg notRegister] at has
  refine ite_congr rfl (fun get => ?_) fun notGet => ?_
  · rw [if_pos get] at has
    rw [processGet, processGet, slice_own _ _ _ _ has]
  rw [if_neg notGet] at has
  refine ite_congr rfl (fun punch => ?_) fun notPunch => ?_
  · rw [if_pos (.inl punch)] at has
    exact hole_own s rx _ rest has
  refine ite_congr rfl (fun ack => ?_) fun notAck => ?_
  · rw [if_pos (.inr ack)] at has
    exact hole_own s rx _ rest has
  rw [if_neg (by rintro (punch | ack); exacts [notPunch punch, notAck ack])] at has
  refine ite_congr rfl (fun share => ?_) fun notShare => ?_
  · rw [if_pos share] at has
    rw [processShare, processShare, slice_own _ _ _ _ has]
  rw [if_neg notShare] at has
  refine ite_congr rfl (fun request => ?_) fun _ => rfl
  rw [if_pos request] at has
  exact request_own s rx _ rest has

end Enough

section Kinds

variable (s : Udp) (rx : Rx) (buf : Bytes) (udpSize : Nat)

section

variable (sized : ntohs (slice buf 0 2) = udpSize)

include sized

theorem kind_register (kind : ntohs (slice buf 4 2) = msgP2pRegister) : processUdp s rx buf udpSize = (processRegister s rx buf udpSize, []) := by
  rw [processUdp, if_neg (not_not.mpr sized), kind]
  rfl

theorem kind_get (kind : ntohs (slice buf 4 2) = msgP2pGet) : processUdp s rx buf udpSize = processGet s rx buf := by
  rw [processUdp, if_neg (not_not.mpr sized), kind]
  rfl

theorem kind_hole (kind : ntohs (slice buf 4 2) = msgP2pHolePunch ∨ ntohs (slice buf 4 2) = msgP2pHolePunchAck) :
    processUdp s rx buf udpSize = processHole s rx buf udpSize := by
  rcases kind with kind | kind <;> rw [processUdp, if_neg (not_not.mpr sized), kind] <;> rfl

theorem kind_share (kind : ntohs (slice buf 4 2) = shareP2pDevinfo) : processUdp s rx buf udpSize = processShare s rx buf := by
  rw [processUdp, if_neg (not_not.mpr sized), kind]
  rfl

theorem kind_request (kind : ntohs (slice buf 4 2) = requestForwardInfoCmd) : processUdp s rx buf udpSize = processRequest s rx buf := by
  rw [processUdp, if_neg (not_not.mpr sized), kind]
  rfl

theorem kind_other (kind : ntohs (slice buf 4 2) ∉ [msgP2pRegister, msgP2pGet, msgP2pHolePunch, msgP2pHolePunchAck, shareP2pDevinfo, requestForwardInfoCmd]) :
    processUdp s rx buf udpSize = (s, []) := by
  simp only [mem_cons, not_mem_nil, or_false, not_or] at kind
  obtain ⟨register, get, punch, ack, share, request⟩ := kind
  rw [processUdp, if_neg (not_not.mpr sized)]
  rw [if_neg register, if_neg get, if_neg punch, if_neg ack, if_neg share, if_neg request]

end

end Kinds

section Short

def filled (byte : UInt8) : Bytes := List.replicate n2nSnPktbufSize byte

theorem quiet_draws : (generateRandStr 16 (List.replicate 16 [0, 9]).flatten).isSome := rfl

def quietRx : Rx := ⟨⟨[0, 0, 0, 0], 0⟩, 0, true, true, ⟨(List.replicate 16 [0, 9]).flatten, quiet_draws⟩⟩

def plainEdge (community uuid : Bytes) : Edge := ⟨community, List.replicate 32 0, ⟨[0, 0, 0, 0], 0⟩, uuid, 0, List.replicate 48 0⟩

def udpOf (edges : List Edge) : Udp := ⟨edges, ⟨0, 0, 0, 0⟩, snInit⟩

theorem plain_formed (community uuid : Bytes) (long : community.length = 32) (whole : uuid.length = 64) :
    ∀ edge ∈ (udpOf [plainEdge community uuid]).edges, EdgeFormed edge := by
  intro edge there
  rw [mem_singleton.mp there]
  exact ⟨long, rfl, whole, rfl⟩

theorem plain_records (username community uuid : Bytes) :
    processP2pAck username 0 [plainEdge community uuid] = if username = community then List.replicate 48 0 else [] := by
  by_cases same : username = community
  · rw [if_pos same]
    exact if_pos same
  · rw [if_neg same]
    exact if_neg same

variable (community uuid buf : Bytes)

theorem get_fwd :
    (processGet (udpOf [plainEdge community uuid]) quietRx buf).1.stats.fwd = if slice buf 6 32 = community then 1 else 0 := by
  rw [processGet, show (udpOf _).edges = [plainEdge _ uuid] from rfl, plain_records]
  by_cases same : slice buf 6 32 = community
  · rw [if_pos same, if_pos same]
    rfl
  · rw [if_neg same, if_neg same]
    rfl

theorem plain_share (wanted community uuid : Bytes) :
    processShareP2pAck wanted [plainEdge community uuid] = if wanted = uuid then List.replicate 48 0 else [] := by
  rw [processShareP2pAck, find?_singleton, show (plainEdge _ uuid).uuid = uuid from rfl]
  by_cases same : wanted = uuid
  · rw [if_pos same, if_pos (decide_eq_true same)]
    rfl
  · rw [if_neg same, if_neg fun found => same (of_decide_eq_true found)]

theorem share_fwd :
    (processShare (udpOf [plainEdge community uuid]) quietRx buf).1.stats.fwd = if slice buf 6 64 = uuid then 1 else 0 := by
  rw [processShare, show (udpOf _).edges = [plainEdge _ uuid] from rfl, plain_share]
  by_cases same : slice buf 6 64 = uuid
  · rw [if_pos same, if_pos same]
    rfl
  · rw [if_neg same, if_neg same]
    rfl

theorem hole_port (s : Udp) (rx : Rx) (buf : Bytes) (udpSize : Nat) :
    (processHole s rx buf udpSize).2.map (fun sent => sent.dest.port) = [ntohs (slice buf 18 2)] := rfl

def replyCode : Reply → Option Nat
  | .forward info => some info.cerror
  | .bytes _ => none

theorem request_code :
    (processRequest (udpOf [plainEdge community uuid]) quietRx buf).2.map (fun sent => replyCode sent.reply) =
      if sameUuid (buf.drop 6) uuid then [some 1] else [some 37] := by
  rw [processRequest, show (udpOf _).edges = [plainEdge _ uuid] from rfl, find?_singleton,
    show (plainEdge _ uuid).uuid = uuid from rfl]
  by_cases same : sameUuid (buf.drop 6) uuid = true
  · rw [if_pos same, if_pos same]
    dsimp only
    rw [request_cases _ _ _ _ _ rfl rfl]
    rfl
  · rw [if_neg same, if_neg same]
    rfl

theorem register_edges (udpSize : Nat) (withUuid : udpSize ≠ 150) :
    (processRegister (udpOf [plainEdge community uuid]) quietRx buf udpSize).edges.length = if sameUuid (buf.drop 118) uuid then 1 else 2 := by
  rw [processRegister, if_neg withUuid, registered, updateEdgeUuid, udpOf, refresh, show (plainEdge _ uuid).uuid = uuid from rfl]
  by_cases same : sameUuid (buf.drop 118) uuid = true
  · rw [if_pos same, if_pos same]
    rfl
  · rw [if_neg same, if_neg same]
    rfl

theorem register_uuid (buf : Bytes) (udpSize : Nat) (withUuid : udpSize ≠ 150) :
    (processRegister (udpOf []) quietRx buf udpSize).edges.map (fun edge => edge.uuid) = [slice buf 118 64] := by
  rw [processRegister, if_neg withUuid]
  rfl

variable (datagram : Bytes)

theorem sized_right (sized : SizedRight datagram) (fits : datagram.length ≤ n2nSnPktbufSize) (rest : Bytes) :
    ntohs (slice (received datagram rest) 0 2) = bread datagram := by
  rw [received_short _ rest fits, slice_own _ _ _ _ sized.1, sized.2, bread, Nat.min_eq_left fits]

theorem kind_own (fits : datagram.length ≤ n2nSnPktbufSize) (six : 6 ≤ datagram.length) (rest : Bytes) :
    ntohs (slice (received datagram rest) 4 2) = ntohs (slice datagram 4 2) := by
  rw [received_short _ rest fits, slice_own _ _ _ _ six]

theorem filled_enough (byte : UInt8) : n2nSnPktbufSize ≤ datagram.length + (filled byte).length := by
  rw [filled, length_replicate]
  omega

theorem filled_length (byte : UInt8) : (received datagram (filled byte)).length = n2nSnPktbufSize :=
  received_length _ _ (filled_enough _ byte)

theorem filled_differ (start len i : Nat) (behind : datagram.length ≤ start + i) (inside : i < len) (buffer : start + i < n2nSnPktbufSize) :
    slice (received datagram (filled 1)) start len ≠ slice (received datagram (filled 0)) start len := by
  intro same
  have byte := congrArg (fun bytes : Bytes => bytes.getD i 0) same
  rw [slice_get _ _ _ _ inside, slice_get _ _ _ _ inside, filled, filled, received_high _ 1 _ behind buffer,
    received_high _ 0 _ behind buffer] at byte
  exact absurd byte (by decide)

theorem filled_text (start : Nat) (early : start ≤ 1024) (inside : start ≤ datagram.length) (short : datagram.length ≤ start + 64)
    (zeroless : 0 ∉ datagram.drop start) :
    sameUuid ((received datagram (filled 0)).drop start) (datagram.drop start ++ List.replicate (64 - (datagram.length - start)) 0) = true ∧
      sameUuid ((received datagram (filled 1)).drop start) (datagram.drop start ++ List.replicate (64 - (datagram.length - start)) 0) = false := by
  have fits : datagram.length ≤ n2nSnPktbufSize := by rw [n2nSnPktbufSize]; omega
  have text : ∀ byte, ((received datagram (filled byte)).drop start).take 65 =
      datagram.drop start ++ replicate (65 - (datagram.length - start)) byte := by
    intro byte
    rw [received_short _ _ fits, filled, take_replicate, drop_append_of_le_length inside, take_append,
      take_of_length_le (by rw [length_drop]; omega), take_replicate, length_drop]
    refine congrArg (fun many => datagram.drop _ ++ replicate many byte) ?_
    rw [n2nSnPktbufSize] at fits ⊢
    omega
  have stored : cString ((datagram.drop start ++ replicate (64 - (datagram.length - start)) 0).take 64) = datagram.drop start := by
    rw [take_of_length_le (by rw [length_append, length_drop, length_replicate]; omega), cString_ended _ _ zeroless]
  refine ⟨decide_eq_true ?_, decide_eq_false ?_⟩
  · rw [text, stored, cString_ended _ _ zeroless]
  · rw [text, stored, cString_whole]
    · intro same
      have lengths := congrArg length same
      rw [length_append, length_replicate] at lengths
      omega
    · intro there
      rcases mem_append.mp there with own | behind
      · exact zeroless own
      · exact absurd (eq_of_mem_replicate behind) (by decide)

end Short

section Fails

variable (datagram : Bytes)

section

variable (sized : SizedRight datagram)

include sized

theorem get_fails (alone : ActsAlone datagram) (six : 6 ≤ datagram.length) (kind : ntohs (slice datagram 4 2) = msgP2pGet) : 38 ≤ datagram.length := by
  by_contra short
  have fits : datagram.length ≤ n2nSnPktbufSize := by rw [n2nSnPktbufSize]; omega
  have same := alone (udpOf [plainEdge (slice (received datagram (filled 0)) 6 32) (replicate 64 0)]) quietRx _ _
    (plain_formed _ _ (slice_length _ _ _ (by rw [filled_length, n2nSnPktbufSize]; omega)) rfl)
    (filled_enough _ 0) (filled_enough _ 1)
  rw [kind_get _ _ _ _ (sized_right _ sized fits _) ((kind_own _ fits six _).trans kind),
    kind_get _ _ _ _ (sized_right _ sized fits _) ((kind_own _ fits six _).trans kind)] at same
  have counted := congrArg (fun out => out.1.stats.fwd) same
  rw [get_fwd, get_fwd, if_pos rfl, if_neg (filled_differ _ 6 32 31 (by omega) (by omega) (by decide))] at counted
  exact absurd counted (by decide)

theorem share_fails (alone : ActsAlone datagram) (six : 6 ≤ datagram.length) (kind : ntohs (slice datagram 4 2) = shareP2pDevinfo) : 70 ≤ datagram.length := by
  by_contra short
  have fits : datagram.length ≤ n2nSnPktbufSize := by rw [n2nSnPktbufSize]; omega
  have same := alone (udpOf [plainEdge (replicate 32 0) (slice (received datagram (filled 0)) 6 64)]) quietRx _ _
    (plain_formed _ _ rfl (slice_length _ _ _ (by rw [filled_length, n2nSnPktbufSize]; omega)))
    (filled_enough _ 0) (filled_enough _ 1)
  rw [kind_share _ _ _ _ (sized_right _ sized fits _) ((kind_own _ fits six _).trans kind),
    kind_share _ _ _ _ (sized_right _ sized fits _) ((kind_own _ fits six _).trans kind)] at same
  have counted := congrArg (fun out => out.1.stats.fwd) same
  rw [share_fwd, share_fwd, if_pos rfl, if_neg (filled_differ _ 6 64 63 (by omega) (by omega) (by decide))] at counted
  exact absurd counted (by decide)

theorem hole_fails (alone : ActsAlone datagram) (six : 6 ≤ datagram.length)
    (kind : ntohs (slice datagram 4 2) = msgP2pHolePunch ∨ ntohs (slice datagram 4 2) = msgP2pHolePunchAck) : 20 ≤ datagram.length := by
  by_contra short
  have fits : datagram.length ≤ n2nSnPktbufSize := by rw [n2nSnPktbufSize]; omega
  have same := alone (udpOf []) quietRx _ _ nofun (filled_enough _ 0) (filled_enough _ 1)
  rw [kind_hole _ _ _ _ (sized_right _ sized fits _) (by rwa [kind_own _ fits six]),
    kind_hole _ _ _ _ (sized_right _ sized fits _) (by rwa [kind_own _ fits six])] at same
  have port := congrArg (fun out => out.2.map fun sent => sent.dest.port) same
  rw [hole_port, hole_port, ntohs_slice, ntohs_slice, filled, filled,
    received_high _ 0 (18 + 1) (by omega) (by decide), received_high _ 1 (18 + 1) (by omega) (by decide)] at port
  have number := (cons.inj port).1
  have zero : (0 : UInt8).toNat = 0 := rfl
  have one : (1 : UInt8).toNat = 1 := rfl
  omega

theorem request_fails (alone : ActsAlone datagram) (six : 6 ≤ datagram.length) (kind : ntohs (slice datagram 4 2) = requestForwardInfoCmd) :
    71 ≤ datagram.length ∨ 0 ∈ datagram.drop 6 := by
  by_contra neither
  obtain ⟨short, zeroless⟩ := not_or.mp neither
  have fits : datagram.length ≤ n2nSnPktbufSize := by rw [n2nSnPktbufSize]; omega
  obtain ⟨ends, goesOn⟩ := filled_text _ 6 (by omega) six (by omega) zeroless
  have same := alone (udpOf [plainEdge (replicate 32 0) (datagram.drop 6 ++ replicate (64 - (datagram.length - 6)) 0)]) quietRx
    _ _ (plain_formed _ _ rfl (by rw [length_append, length_drop, length_replicate]; omega))
    (filled_enough _ 0) (filled_enough _ 1)
  rw [kind_request _ _ _ _ (sized_right _ sized fits _) ((kind_own _ fits six _).trans kind),
    kind_request _ _ _ _ (sized_right _ sized fits _) ((kind_own _ fits six _).trans kind)] at same
  have code := congrArg (fun out => out.2.map fun sent => replyCode sent.reply) same
  rw [request_code, request_code, ends, goesOn] at code
  exact absurd code (by decide)

theorem register_fails (alone : ActsAlone datagram) (six : 6 ≤ datagram.length) (kind : ntohs (slice datagram 4 2) = msgP2pRegister) :
    datagram.length = 150 ∨ 183 ≤ datagram.length ∨ (datagram.length = 182 ∧ 0 ∈ slice datagram 118 64) := by
  by_contra neverOwn
  obtain ⟨withUuid, rest⟩ := not_or.mp neverOwn
  obtain ⟨short, notEnded⟩ := not_or.mp rest
  have fits : datagram.length ≤ n2nSnPktbufSize := by rw [n2nSnPktbufSize]; omega
  have size : bread datagram ≠ 150 := by rw [bread, Nat.min_eq_left fits]; exact withUuid
  by_cases whole : datagram.length = 182
  · have all : slice _ 118 64 = datagram.drop 118 := take_of_length_le (by rw [length_drop]; omega)
    have zeroless : 0 ∉ datagram.drop 118 := fun there => notEnded ⟨whole, all ▸ there⟩
    obtain ⟨ends, goesOn⟩ := filled_text _ 118 (by omega) (by omega) (by omega) zeroless
    have same := alone (udpOf [plainEdge (replicate 32 0) (datagram.drop 118 ++ replicate (64 - (datagram.length - 118)) 0)]) quietRx
      _ _ (plain_formed _ _ rfl (by rw [length_append, length_drop, length_replicate]; omega))
      (filled_enough _ 0) (filled_enough _ 1)
    rw [kind_register _ _ _ _ (sized_right _ sized fits _) ((kind_own _ fits six _).trans kind),
      kind_register _ _ _ _ (sized_right _ sized fits _) ((kind_own _ fits six _).trans kind)] at same
    have counted := congrArg (fun out => out.1.edges.length) same
    rw [register_edges _ _ _ _ size, register_edges _ _ _ _ size, ends, goesOn] at counted
    exact absurd counted (by decide)
  · have same := alone (udpOf []) quietRx _ _ nofun (filled_enough _ 0) (filled_enough _ 1)
    rw [kind_register _ _ _ _ (sized_right _ sized fits _) ((kind_own _ fits six _).trans kind),
      kind_register _ _ _ _ (sized_right _ sized fits _) ((kind_own _ fits six _).trans kind)] at same
    have uuids := congrArg (fun out => out.1.edges.map fun edge => edge.uuid) same
    rw [register_uuid _ _ size, register_uuid _ _ size] at uuids
    exact filled_differ _ 118 64 63 (by omega) (by omega) (by decide) (cons.inj uuids).1.symm

end

def laid (bytes : Nat → UInt8) : Bytes := (List.range n2nSnPktbufSize).map fun i => bytes (datagram.length + i)

theorem laid_get (bytes : Nat → UInt8) (i : Nat) (behind : datagram.length ≤ i) (inside : i < n2nSnPktbufSize) :
    (received datagram (laid datagram bytes)).getD i 0 = bytes i := by
  rw [received, getD_eq_getElem?_getD, getElem?_take_of_lt inside, getElem?_append_right behind, laid, getElem?_map,
    getElem?_range (by omega)]
  exact congrArg bytes (by omega)

theorem laid_enough (bytes : Nat → UInt8) : n2nSnPktbufSize ≤ datagram.length + (laid datagram bytes).length := by
  rw [laid, length_map, length_range]
  omega

def lowByte (low : UInt8) : Bytes := laid datagram fun i => if i = 5 then low else 0

theorem low_cmd (short : datagram.length ≤ 5) (low : UInt8) : ntohs (slice (received datagram (lowByte datagram low)) 4 2) =
      (if datagram.length ≤ 4 then 0 else datagram.getD 4 0).toNat * 256 + low.toNat := by
  rw [ntohs_slice, lowByte, laid_get _ _ _ short (by decide), if_pos rfl]
  by_cases four : datagram.length ≤ 4
  · rw [if_pos four, laid_get _ _ 4 four (by decide), if_neg (by omega)]
  · rw [if_neg four, received_low _ _ _ (by omega) (by decide)]

theorem head_fails (sized : SizedRight datagram) (alone : ActsAlone datagram) (short : datagram.length ≤ 5) :
    (if datagram.length ≤ 4 then 0 else datagram.getD 4 0) ∉ ([0x00, 0x40, 0x15] : List UInt8) := by
  have fits : datagram.length ≤ n2nSnPktbufSize := by rw [n2nSnPktbufSize]; omega
  have cmd := low_cmd _ short
  have size : bread datagram ≠ 6 + 144 := by rw [bread, Nat.min_eq_left fits]; omega
  intro kind
  -- Another low byte makes it no message at all.
  have idle : ∀ s, processUdp s quietRx (received datagram (lowByte datagram 0xff)) (bread datagram) = (s, []) := by
    intro s
    refine kind_other s _ _ _ (sized_right _ sized fits _) ?_
    rw [cmd]
    revert kind
    generalize (if datagram.length ≤ 4 then (0 : UInt8) else datagram.getD 4 0) = high
    intro kind
    simp only [mem_cons, not_mem_nil, or_false] at kind
    rcases kind with rfl | rfl | rfl <;> decide
  simp only [mem_cons, not_mem_nil, or_false] at kind
  rcases kind with register | share | request
  · have same := alone (udpOf []) quietRx (lowByte _ 5) (lowByte _ 0xff) nofun (laid_enough _ _) (laid_enough _ _)
    rw [idle, kind_register _ _ _ _ (sized_right _ sized fits _) (by rw [cmd, register]; rfl), processRegister, if_neg size] at same
    exact Nat.one_ne_zero (congrArg (fun out => out.1.stats.regSuper) same)
  · have same := alone (udpOf [plainEdge (replicate 32 0) (slice (received _ (lowByte _ 5)) 6 64)]) quietRx
      (lowByte _ 5) (lowByte _ 0xff)
      (plain_formed _ _ rfl (slice_length _ _ _ (by rw [lowByte, received_length _ _ (laid_enough datagram _)]; decide)))
      (laid_enough _ _) (laid_enough _ _)
    rw [idle, kind_share _ _ _ _ (sized_right _ sized fits _) (by rw [cmd, share]; rfl)] at same
    have counted := congrArg (fun out => out.1.stats.fwd) same
    rw [share_fwd, if_pos rfl] at counted
    exact Nat.one_ne_zero counted
  · have same := alone (udpOf []) quietRx (lowByte _ 2) (lowByte _ 0xff) nofun (laid_enough _ _) (laid_enough _ _)
    rw [idle, kind_request _ _ _ _ (sized_right _ sized fits _) (by rw [cmd, request]; rfl)] at same
    exact Nat.one_ne_zero (congrArg (fun out => out.2.length) same)

end Fails

theorem acts_alone_iff (datagram : Bytes) (sized : SizedRight datagram) : ActsAlone datagram ↔ HasItsFields datagram := by
  constructor
  · intro alone
    rw [HasItsFields]
    split
    · rename_i four
      have fails := head_fails _ sized alone (by omega)
      rw [if_pos four] at fails
      exact fails (by decide)
    split
    · have holds := head_fails _ sized alone (by omega)
      rwa [if_neg (by omega)] at holds
    have six : 6 ≤ datagram.length := by omega
    dsimp only
    split
    · rename_i kind
      exact register_fails _ sized alone six kind
    split
    · rename_i kind
      exact get_fails _ sized alone six kind
    split
    · rename_i kind
      exact hole_fails _ sized alone six kind
    split
    · rename_i kind
      exact share_fails _ sized alone six kind
    split
    · rename_i kind
      exact request_fails _ sized alone six kind
    · trivial
  · intro has s rx rest other _ _ _
    by_cases fits : datagram.length ≤ n2nSnPktbufSize
    · rw [received_short _ _ fits, received_short _ _ fits, bread, Nat.min_eq_left fits, fields_own s rx _ _ has,
        fields_own s rx _ _ has]
    · rw [received_long _ _ (Nat.le_of_not_le fits), received_long _ _ (Nat.le_of_not_le fits)]

-- A request for the devices of a user that ends behind its head.
def bareGet : Bytes := [0, 6, 0, 1, 0, 1]

theorem acts_alone_bare : ActsAlone bareGet ↔ HasItsFields bareGet := acts_alone_iff _ ⟨by decide, by decide⟩

theorem bare_get_reads_on : SizedRight bareGet ∧ ¬ ActsAlone bareGet := by
  have sized : SizedRight bareGet := ⟨by decide, by decide⟩
  exact ⟨sized, fun alone => absurd (get_fails _ sized alone (by decide) (by decide)) (by decide)⟩

end Codec.Sn
